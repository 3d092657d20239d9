import ForwardShading.Proofs.Draw.Submission
import ForwardShading.Proofs.Program.Basic
import ForwardShading.Proofs.Renderer
import ForwardShading.Proofs.Std140.WriteOrder

/-!
# Object buffers

A shader with explicit bindings reads the uniforms of an object from the buffer that its draw has
uploaded.  The buffer holds the matrices and the parameters of the instance, and zeros elsewhere
(`Instance.holds_objectBuffer`, `Instance.wordAt?_objectBuffer`): the values of the material, which
the named uniforms do get, are not written to it.  So a parameter of the material is seen only where
it is overridden or zero (`Renderer.draws_objectBuffer`).
-/

namespace ForwardShading

open Std140 (Layout PlacedField Buffer)

/-- The words of a parameter that has a numeric value. -/
def Parameters.words? (ps : Parameters) (name : String) : Option (List UInt32) :=
  (ps.get? name).bind UniformValue.words?

namespace Instance

variable {i : Instance} {l : Layout} {f : PlacedField}

/-- The matrices that the object buffer gets before the parameters. -/
def matrixValues (i : Instance) : List (String × UniformValue) :=
  [("matrix_model", .mat4 i.transform), ("matrix_normal", .mat3 i.transform.normalMatrix)]

theorem objectBuffer_eq (i : Instance) (l : Layout) :
    i.objectBuffer l = (i.matrixValues ++ i.parameters.entries).foldl l.writeValue l.zeros := by
  rw [objectBuffer, fillBuffer, Buffer.resize_clear]
  rfl

theorem holds_objectBuffer (hl : l.Sound) (hf : f ∈ l.fields) {ws : List UInt32}
    (hws : i.parameters.words? f.name = some ws) : f.Holds (i.objectBuffer l) ws := by
  obtain ⟨value, hget, hvalue⟩ := Option.bind_eq_some_iff.1 hws
  obtain ⟨as, bs, hentries⟩ := List.append_of_mem (OrderedMap.get?_eq_some_iff.1 hget)
  have hbs : ∀ e ∈ bs, e.1 = f.name → e.2.words? = none := by
    intro e he hname
    have hnodup := i.parameters.nodup_keys
    rw [OrderedMap.keys, hentries, List.map_append, List.map_cons, List.nodup_append,
      List.nodup_cons] at hnodup
    exact absurd (List.mem_map.2 ⟨e, he, hname⟩) hnodup.2.1.1
  rw [objectBuffer_eq, hentries, ← List.append_assoc]
  exact hl.holds_foldl_writeValue hf hvalue hbs (Nat.le_of_eq l.size_zeros.symm)

/-- A field without a parameter is all zeros, unless it is one of the matrices. -/
theorem wordAt?_objectBuffer (hl : l.Sound) (hf : f ∈ l.fields) (hmodel : f.name ≠ "matrix_model")
    (hnormal : f.name ≠ "matrix_normal") (hws : i.parameters.words? f.name = none) {k : Nat}
    (hk : k < f.capacity) : (i.objectBuffer l).wordAt? (f.position k) = some 0 := by
  have hend := f.position_add_four_le_end hk
  have hinside := hl.end_le hf
  rw [objectBuffer_eq, hl.wordAt?_foldl_writeValue hf _ _ hk]
  · exact Layout.wordAt?_zeros (by omega)
  · intro e he hname
    rcases List.mem_append.1 he with he | he
    · rcases List.mem_cons.1 he with rfl | he
      · exact absurd hname.symm hmodel
      · rw [List.mem_singleton.1 he] at hname
        exact absurd hname.symm hnormal
    · have hget : i.parameters.get? f.name = some e.2 :=
        OrderedMap.get?_eq_some_iff.2 (by rw [← hname]; exact he)
      rwa [Parameters.words?, hget, Option.bind_some] at hws

end Instance

/-- The words that the parameters of a draw give to a name: the override of the instance where there
is one, and otherwise the value of the material. -/
def parameterWords? (m : Material) (i : Instance) (name : String) : Option (List UInt32) :=
  (i.parameters.words? name).or (m.parameters.words? name)

/-- A parameter reaches its field exactly where the instance overrides it or all of it is zero. -/
theorem holds_objectBuffer_iff {m : Material} {i : Instance} {l : Layout} {f : PlacedField}
    (hl : l.Sound) (hf : f ∈ l.fields) (hmodel : f.name ≠ "matrix_model")
    (hnormal : f.name ≠ "matrix_normal") {ws : List UInt32}
    (hws : parameterWords? m i f.name = some ws) :
    f.Holds (i.objectBuffer l) ws ↔
      (i.parameters.words? f.name).isSome ∨ ∀ w ∈ ws.take f.capacity, w = 0 := by
  cases hi : i.parameters.words? f.name with
  | some ws' =>
    rw [parameterWords?, hi, Option.some_or] at hws
    cases hws
    exact ⟨fun _ => .inl rfl, fun _ => Instance.holds_objectBuffer hl hf hi⟩
  | none =>
    have hzero : ∀ k w, (ws.take f.capacity)[k]? = some w →
        (i.objectBuffer l).wordAt? (f.position k) = some 0 := by
      intro k w hk
      have hlength := (List.getElem?_eq_some_iff.1 hk).1
      rw [List.length_take] at hlength
      exact Instance.wordAt?_objectBuffer hl hf hmodel hnormal hi (by omega)
    constructor
    · intro h
      refine .inr fun w hw => ?_
      obtain ⟨k, hk⟩ := List.mem_iff_getElem?.1 hw
      have hheld := h k w hk
      rw [hzero k w hk] at hheld
      exact (Option.some.inj hheld).symm
    · rintro (h | h) k w hk
      · cases h
      · rw [hzero k w hk, h w (List.mem_of_getElem? hk)]

/-- The object buffer that a draw sees. -/
def DeviceState.ShowsBuffer (δ : DeviceState) (l : Layout) (b : Buffer) : Prop :=
  δ (.uniformBuffer .objectUniforms) = some (.uniformBuffer .objectUniforms l b)

/-- At the draw of a call, each field of the object buffer that has a parameter holds it. -/
def ShowsParameters (materials : MaterialTable) (c : DrawCall × Program)
    (d : DeviceState × Command) : Prop :=
  ∃ b, d.1.ShowsBuffer c.2.layout.uniforms b ∧
    ∀ f ∈ c.2.layout.uniforms.fields, f.name ≠ "matrix_model" → f.name ≠ "matrix_normal" →
      ∀ ws, parameterWords? (materials c.1.object.material) c.1.object f.name = some ws →
        f.Holds b ws

/-- At the draw of a call, each field of the object buffer that has a parameter holds it exactly
where the instance overrides it or all of it is zero. -/
def ShowsOverrides (materials : MaterialTable) (c : DrawCall × Program)
    (d : DeviceState × Command) : Prop :=
  ∃ b, d.1.ShowsBuffer c.2.layout.uniforms b ∧
    ∀ f ∈ c.2.layout.uniforms.fields, f.name ≠ "matrix_model" → f.name ≠ "matrix_normal" →
      ∀ ws, parameterWords? (materials c.1.object.material) c.1.object f.name = some ws →
        (f.Holds b ws ↔
          (c.1.object.parameters.words? f.name).isSome ∨ ∀ w ∈ ws.take f.capacity, w = 0)

/-- In explicit bindings, a call draws with the object buffer of its instance. -/
theorem Submission.showsBuffer_setCommands (s : Submission) (progress : Progress) (c : DrawCall)
    {p : Program} (hp : p.dialect = .explicitBinding) (δ : DeviceState) :
    (δ.run (s.setCommands progress c p)).ShowsBuffer p.layout.uniforms
      (c.object.objectBuffer p.layout.uniforms) := by
  have hlast : lastFor? (.uniformBuffer .objectUniforms)
      (c.object.objectCommands p (c.object.objectBuffer p.layout.uniforms)) =
      some (.uniformBuffer .objectUniforms p.layout.uniforms
        (c.object.objectBuffer p.layout.uniforms)) := by
    refine lastFor?_eq_some_of_unique ?_ rfl fun x hx hr => ?_
    · simp [Instance.objectCommands, hp, Dialect.usesUniformBuffers]
    · simp only [Instance.objectCommands, hp, Dialect.usesUniformBuffers, if_true, List.mem_append,
        List.mem_cons, List.not_mem_nil, or_false, List.mem_ite_nil_left] at hx
      rcases hx with (rfl | rfl | rfl) | ⟨-, rfl⟩
      · rfl
      all_goals cases hr
  rw [DeviceState.ShowsBuffer, setCommands, instanceCommands, DeviceState.run_append,
    DeviceState.run_append, DeviceState.run_eq, hlast, Option.some_or]

namespace Renderer

variable {r : Renderer}

/-- A drawn program is in the dialect of the cache, and its layout is sound. -/
theorem Coherent.drawn (hr : r.Coherent) {l : Layer} {c : DrawCall} {p : Program}
    (hc : c ∈ (r.drawLayer l).prepared.calls) (hp : c.variant.program = .ok p) :
    p.dialect = r.cache.dialect ∧ p.layout.uniforms.Sound := by
  rw [hr.program_eq hc] at hp
  exact ⟨Program.dialect_of_build_eq_ok hp, Program.sound_of_build_eq_ok hp⟩

/-- Along the draws of a layer, each sees a sound buffer that its own instance has filled. -/
theorem Coherent.forall₂_showsBuffer (hr : r.Coherent) (hd : r.cache.dialect = .explicitBinding)
    (l : Layer) (δ : DeviceState) :
    List.Forall₂
      (fun c d => d.2 = c.1.object.drawCommand ∧ c.2.layout.uniforms.Sound ∧
        d.1.ShowsBuffer c.2.layout.uniforms (c.1.object.objectBuffer c.2.layout.uniforms))
      (Submission.drawnCalls (r.drawLayer l).prepared.calls) (δ.draws (r.submitted l)) := by
  refine Submission.forall₂_draws_calls (r.submission l) (fun c hc p hp progress σ _ => ?_) rfl δ
  obtain ⟨hdialect, hsound⟩ := hr.drawn hc hp
  rw [hd] at hdialect
  exact ⟨rfl, hsound, Submission.showsBuffer_setCommands _ progress c hdialect σ⟩

/-- Along the draws of a layer, a parameter reaches its field in the object buffer exactly where the
instance overrides it or all of it is zero.  The values of materials are not written there. -/
theorem draws_objectBuffer (hr : r.Reachable) (hd : r.cache.dialect = .explicitBinding) (l : Layer)
    (δ : DeviceState) :
    List.Forall₂ (fun c d => d.2 = c.1.object.drawCommand ∧ ShowsOverrides l.materials c d)
      (Submission.drawnCalls (r.drawLayer l).prepared.calls) (δ.draws (r.submitted l)) := by
  refine (hr.coherent.forall₂_showsBuffer hd l δ).imp fun c d => ?_
  rintro ⟨hdraw, hsound, hbuffer⟩
  refine ⟨hdraw, _, hbuffer, fun f hf hmodel hnormal ws hws => ?_⟩
  exact holds_objectBuffer_iff hsound hf hmodel hnormal hws

theorem draws_objectBuffer_tinted :
    initial.Reachable ∧ initial.cache.dialect = .explicitBinding ∧
      List.Forall₂
        (fun c d => d.2 = c.1.object.drawCommand ∧ ShowsOverrides Layer.tinted.materials c d)
        (Submission.drawnCalls (initial.drawLayer .tinted).prepared.calls)
        (DeviceState.draws (fun _ => none) (initial.submitted .tinted)) :=
  ⟨reachable_initial, rfl, draws_objectBuffer reachable_initial rfl .tinted _⟩

/-- The white tint of the material does not reach the first of the two draws. -/
theorem not_showsParameters_tinted :
    ¬ List.Forall₂ (ShowsParameters Layer.tinted.materials)
      (Submission.drawnCalls (initial.drawLayer .tinted).prepared.calls)
      (DeviceState.draws (fun _ => none) (initial.submitted .tinted)) := by
  intro h
  have hbuffer := reachable_initial.coherent.forall₂_showsBuffer rfl .tinted fun _ => none
  have hcalls : (Submission.drawnCalls (initial.drawLayer .tinted).prepared.calls).head?.map
      (fun c => (c.1.object.parameters.words? "tint",
        parameterWords? Layer.tintedMaterial c.1.object "tint", c.2.layout.uniforms.fields)) =
      some (none, some (List.replicate 4 0x3f800000),
        [⟨⟨"tint", .vector .float .four, 0⟩, 0⟩]) := by
    decide +kernel
  cases hc : Submission.drawnCalls (initial.drawLayer .tinted).prepared.calls with
  | nil =>
    rw [hc] at hcalls
    cases hcalls
  | cons c cs =>
    rw [hc] at h hbuffer hcalls
    simp only [List.head?_cons, Option.map_some, Option.some.injEq, Prod.mk.injEq] at hcalls
    obtain ⟨hnone, hwords, hfields⟩ := hcalls
    obtain ⟨d, ds, ⟨b, hb, hshown⟩, -, hds⟩ := List.forall₂_cons_left_iff.1 h
    rw [hds] at hbuffer
    obtain ⟨-, hsound, hb'⟩ := (List.forall₂_cons.1 hbuffer).1
    rw [DeviceState.ShowsBuffer, hb'] at hb
    cases hb
    have hf : (⟨⟨"tint", .vector .float .four, 0⟩, 0⟩ : PlacedField) ∈
        c.2.layout.uniforms.fields := by
      rw [hfields]
      exact List.mem_singleton_self _
    have hheld := hshown _ hf (by decide) (by decide) _ hwords
    rcases (holds_objectBuffer_iff hsound hf (by decide) (by decide) hwords).1 hheld with h | h
    · rw [hnone] at h
      cases h
    · have hone : (0x3f800000 : UInt32) = 0 := h _ List.mem_cons_self
      exact absurd hone (by decide)

end Renderer

end ForwardShading
