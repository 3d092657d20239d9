import ForwardShading.Proofs.Draw.Submission
import ForwardShading.Proofs.Renderer

/-!
# The parameters that a draw sees

A call sets the parameters of its material only where it has a new material, and a call that carries
overrides takes them back only for a next call that shares its material.  Between them this is enough:
when a call comes up that does not set its material, all parameters of the material are on the device
(`Submission.Parametrised`), so every draw sees the overrides of its instance and otherwise the
parameters of its material (`Renderer.forall₂_holds_drawLayer`).
-/

namespace ForwardShading

/-- The value of a parameter for an instance: its override, or else what its material has. -/
def Instance.parameter? (i : Instance) (m : Material) (name : String) : Option UniformValue :=
  (i.parameters.get? name).or (m.parameters.get? name)

/-- Holds where the values were the last ones to be set, but for the uniforms that submission itself
sets. -/
def DeviceState.Holds (δ : DeviceState) (value? : String → Option UniformValue) : Prop :=
  ∀ name v, ¬ IsReserved name → value? name = some v → δ (.uniform name) = some (.uniform name v)

namespace Submission

variable {s : Submission} {progress : Progress} {c next : DrawCall} {p : Program} {δ : DeviceState}

section Uniforms

variable {n : String}

theorem lastFor?_uniform_lightCommands (hn : ¬ IsReserved n) (d : Dispatcher) (mask : UInt32) :
    lastFor? (.uniform n) (s.lightCommands d mask) = none := by
  refine lastFor?_eq_none_iff.2 fun h => ?_
  obtain ⟨slot, u, hname⟩ := mem_registers_lightCommands s h
  exact hn (.inr (.inr (.inr ⟨slot, u, Register.uniform.inj hname⟩)))

theorem lastFor?_uniform_stateCommands (hn : ¬ IsReserved n) (m : Material) :
    lastFor? (.uniform n) m.stateCommands = none := by
  refine lastFor?_eq_none_iff.2 fun h => hn (.inl ?_)
  simpa using mem_registers_stateCommands h

theorem lastFor?_uniform_objectCommands (hn : ¬ IsReserved n) (i : Instance) (p : Program)
    (b : Std140.Buffer) : lastFor? (.uniform n) (i.objectCommands p b) = none := by
  refine lastFor?_eq_none_iff.2 fun h => hn ?_
  have hname : n = "matrix_model" ∨ n = "matrix_normal" := by
    simpa using mem_registers_objectCommands h
  exact .inr (hname.imp_right .inl)

theorem lastFor?_uniform_instanceCommands (hn : ¬ IsReserved n) (m : Material) (i : Instance)
    (p : Program) :
    lastFor? (.uniform n) (s.instanceCommands m i p) = (i.parameters.get? n).map (.uniform n) := by
  have hvertex : lastFor? (.uniform n) i.vertexCommands = none :=
    lastFor?_eq_none_iff.2 fun h => by simpa using mem_registers_vertexCommands h
  rw [instanceCommands, lastFor?_append, lastFor?_uniform_objectCommands hn, Option.none_or,
    lastFor?_append, hvertex, Option.none_or, lastFor?_append, Parameters.lastFor?_commands]
  exact Option.or_none

/-- What a call sets a uniform to, if it is none that submission itself sets. -/
theorem lastFor?_uniform_setCommands (hn : ¬ IsReserved n) :
    lastFor? (.uniform n) (s.setCommands progress c p) =
      ((c.object.parameters.get? n).map (.uniform n)).or
        (if c.newMaterial then
          ((s.materials c.object.material).parameters.get? n).map (.uniform n)
        else
          none) := by
  have hif : ∀ (b : Bool) (cs : List Command), lastFor? (.uniform n) (if b then cs else []) =
      if b then lastFor? (.uniform n) cs else none := by
    rintro (_ | _) cs <;> rfl
  simp only [setCommands, lastFor?_append, hif, lastFor?_uniform_instanceCommands hn,
    lastFor?_uniform_stateCommands hn, lastFor?_uniform_lightCommands hn,
    lastFor?_uniform_bindCommands, ite_self, Option.none_or]

end Uniforms

/-- Holds where a call that is drawn, but does not set its material, finds the parameters of the
material set. -/
def Parametrised (s : Submission) (δ : DeviceState) (c : DrawCall) : Prop :=
  ∀ p, c.variant.program = .ok p → c.newMaterial = false →
    δ.Holds (s.materials c.object.material).parameters.get?

theorem parametrised_first (h : Follows none c) (s : Submission) (δ : DeviceState) :
    s.Parametrised δ c := by
  intro p _ hc
  rw [h.newMaterial_of_none] at hc
  cases hc

/-- The draw of a call sees its overrides, and otherwise the parameters of its material. -/
theorem Parametrised.holds_set (h : s.Parametrised δ c) (hp : c.variant.program = .ok p)
    (progress : Progress) :
    (δ.run (s.setCommands progress c p)).Holds
      (c.object.parameter? (s.materials c.object.material)) := by
  intro name v hname hv
  rw [DeviceState.run_eq, lastFor?_uniform_setCommands hname]
  rw [Instance.parameter?] at hv
  cases hi : c.object.parameters.get? name with
  | some w =>
    rw [hi] at hv
    cases hv
    rfl
  | none =>
    rw [hi, Option.none_or] at hv
    cases hnew : c.newMaterial with
    | true => simp [hv]
    | false => simpa using h p hp hnew name v hname hv

/-- A call that takes its overrides back leaves the parameters of its material. -/
theorem holds_restore (hδ : δ.Holds (c.object.parameter? (s.materials c.object.material))) :
    (δ.run (s.restoreCommands c true)).Holds
      (s.materials c.object.material).parameters.get? := by
  intro name v hname hv
  rw [restoreCommands, if_pos rfl]
  by_cases hi : name ∈ c.object.parameters.keys
  · rw [DeviceState.run_eq, Parameters.lastFor?_commandsFor _ hi, hv]
    rfl
  · rw [DeviceState.run_eq_of_notMem]
    · refine hδ name v hname ?_
      rw [Instance.parameter?, OrderedMap.get?_eq_none_iff.2 hi, Option.none_or, hv]
    · intro h
      obtain ⟨n, hn, hname'⟩ := Parameters.mem_names_of_mem_registers h
      exact hi (Register.uniform.inj hname' ▸ hn)

/-- A call without a program does nothing for the next one, which does not share its material or has
no program either. -/
theorem parametrised_next_of_error {e : ShaderError} (he : c.variant.program = .error e)
    (hf : Follows (some c) next) (s : Submission) (δ : DeviceState) : s.Parametrised δ next := by
  intro p hp hnew
  rw [hf.variant c rfl hnew, he] at hp
  cases hp

theorem parametrised_next_of_ok {shared : Bool}
    (hδ : δ.Holds (c.object.parameter? (s.materials c.object.material)))
    (hf : Follows (some c) next) (hs : shared = !next.newMaterial) :
    s.Parametrised (δ.run (s.restoreCommands c shared)) next := by
  intro p _ hnew
  rw [hs, hnew, ← hf.material_eq hnew]
  exact holds_restore hδ

/-- From the first of linked calls on, every draw sees the parameters of its own call. -/
theorem forall₂_holds_calls {previous : Option DrawCall} {cs : List DrawCall}
    (hl : Linked previous cs) (h : ∀ c ∈ cs.head?, s.Parametrised δ c) :
    List.Forall₂ (fun c x => x.2 = c.1.object.drawCommand ∧
        x.1.Holds (c.1.object.parameter? (s.materials c.1.object.material)))
      (drawnCalls cs) (δ.draws (s.calls progress cs).2) := by
  induction cs generalizing previous progress δ with
  | nil => exact .nil
  | cons c cs ih =>
    have hready : s.Parametrised δ c := h c rfl
    have hnext : ∀ next ∈ cs.head?, Follows (some c) next := Linked.follows hl.2
    rw [calls_cons, DeviceState.draws_append]
    cases hp : c.variant.program with
    | error e =>
      rw [drawnCalls_cons_of_error hp, commands_call_of_error hp]
      exact ih hl.2 fun next hn => parametrised_next_of_error hp (hnext next hn) s _
    | ok p =>
      have hseen := hready.holds_set hp progress
      rw [drawnCalls_cons_of_ok hp, draws_call hp, run_call hp]
      refine .cons ⟨rfl, hseen⟩ (ih hl.2 fun next hn => ?_)
      refine parametrised_next_of_ok hseen (hnext next hn) ?_
      rw [Option.mem_def.1 hn]
      rfl

end Submission

/-- Every draw of a layer sees the parameters of its own instance and material. -/
theorem Renderer.forall₂_holds_drawLayer (r : Renderer) (l : Layer) (δ : DeviceState) :
    (r.drawLayer l).commands = r.clusterCommands l ++ r.submitted l ∧
      List.Forall₂ (fun c x => x.2 = c.1.object.drawCommand ∧
          x.1.Holds (c.1.object.parameter? (l.materials c.1.object.material)))
        (Submission.drawnCalls (r.drawLayer l).prepared.calls)
        ((δ.run (r.clusterCommands l)).draws (r.submitted l)) :=
  ⟨r.commands_drawLayer l,
    Submission.forall₂_holds_calls (s := r.submission l) (r.linked_drawLayer l) fun c hc =>
      Submission.parametrised_first ((r.linked_drawLayer l).follows c hc) _ _⟩

/-- The second draw shares the material of the first one, but not its tint. -/
example :
    (DeviceState.draws (fun _ => none) (Renderer.initial.drawLayer
      { Layer.tinted with instances := Layer.tinted.instances.reverse }).commands).map
        (fun x => x.1 (.uniform "tint")) =
      [some (.uniform "tint" Layer.red), some (.uniform "tint" Layer.white)] := by
  decide +kernel

end ForwardShading
