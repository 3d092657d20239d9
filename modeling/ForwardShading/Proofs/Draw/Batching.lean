import ForwardShading.Proofs.Draw.Submission
import ForwardShading.Proofs.Renderer

/-!
# Batched submission

Submission leaves out what the call before has already set.  `Ready` says what the device holds when
a call comes up, compared with a device on which every call sets all of its state: where the call
leaves its material out, the material is there, and where it leaves its lights out, they are.  Each
call keeps this for the next one, so both devices show the same state at every draw
(`Renderer.draws_drawLayer`).
-/

namespace ForwardShading

namespace DrawCall

/-- The call as one that sets all of its state. -/
def alone (c : DrawCall) : DrawCall :=
  { c with newMaterial := true, maskChanged := true }

end DrawCall

namespace Submission

variable (s : Submission)

/-- All of the state of a call. -/
def fullCommands (d : Dispatcher) (c : DrawCall) (p : Program) : List Command :=
  let m := s.materials c.object.material
  m.bindCommands p ++ s.lightCommands d c.object.mask ++ m.stateCommands ++
    s.instanceCommands m c.object p

theorem setCommands_alone (progress : Progress) (c : DrawCall) (p : Program) :
    s.setCommands progress c.alone p = s.fullCommands progress.dispatcher c p :=
  rfl

theorem shares_alone (cs : List DrawCall) :
    ((cs.map DrawCall.alone).head?.any (!·.newMaterial)) = false := by
  cases cs <;> rfl

/-- What the device holds when a call comes up: `σ` in a submission that has come as far as
`progress`, and `τ` where every call sets all of its state. -/
structure Ready (progress : Progress) (σ τ : DeviceState) (c : DrawCall) : Prop where
  /-- Calls that set their material, and calls without a program, come up in the same state. -/
  same : c.newMaterial = true ∨ c.variant.isFailed = true → σ = τ
  bound : ∀ p, c.variant.program = .ok p → c.newMaterial = false →
    σ = τ.run ((s.materials c.object.material).bindCommands p) ∧
      σ.run (s.materials c.object.material).stateCommands = σ
  lit : c.maskChanged = false → progress.lightsPending = false →
    σ.run (s.lightCommands progress.dispatcher c.object.mask) = σ

theorem ready_first {c : DrawCall} (hc : Follows none c) (progress : Progress) (δ : DeviceState) :
    s.Ready progress δ δ c where
  same _ := rfl
  bound p _ h := by
    rw [hc.newMaterial_of_none] at h
    cases h
  lit h := by
    rw [hc.maskChanged_of_none] at h
    cases h

variable {s} {progress progress' : Progress} {σ τ : DeviceState} {c next : DrawCall} {p : Program}

/-- A ready call draws in the state of a call that sets all of its state. -/
theorem Ready.run_setCommands (h : s.Ready progress σ τ c) (hp : c.variant.program = .ok p)
    (hm : (s.materials c.object.material).parameters.Unreserved) :
    σ.run (s.setCommands progress c p) = τ.run (s.fullCommands progress.dispatcher c p) := by
  have hlights : (c.maskChanged || progress.lightsPending) = false →
      σ.run (s.lightCommands progress.dispatcher c.object.mask) = σ := fun hl =>
    h.lit (Bool.or_eq_false_iff.1 hl).1 (Bool.or_eq_false_iff.1 hl).2
  simp only [setCommands, fullCommands, DeviceState.run_append]
  congr 1
  cases hn : c.newMaterial with
  | true =>
    obtain rfl := h.same (.inl hn)
    cases hl : (c.maskChanged || progress.lightsPending) with
    | true => rfl
    | false =>
      simp only [if_true, Bool.false_eq_true, if_false, DeviceState.run_nil]
      rw [DeviceState.run_run_of_disjoint (hlights hl) (disjoint_lights_bind hm)]
  | false =>
    obtain ⟨hσ, hstate⟩ := h.bound p hp hn
    rw [← hσ]
    simp only [Bool.false_eq_true, if_false, DeviceState.run_nil]
    cases hl : (c.maskChanged || progress.lightsPending) with
    | true =>
      exact (DeviceState.run_run_of_disjoint hstate (List.disjoint_symm disjoint_lights_state)).symm
    | false =>
      rw [hlights hl, hstate]
      rfl

section Drawn

variable {d : Dispatcher}

theorem run_lightCommands_drawn (hi : c.object.parameters.Unreserved) :
    (τ.run (s.fullCommands d c p)).run (s.lightCommands d c.object.mask) =
      τ.run (s.fullCommands d c p) := by
  simp only [fullCommands, DeviceState.run_append]
  refine DeviceState.run_run_of_disjoint ?_ (disjoint_lights_instance hi)
  exact DeviceState.run_run_run_of_disjoint _ disjoint_lights_state

theorem run_stateCommands_drawn (hi : c.object.parameters.Unreserved) :
    (τ.run (s.fullCommands d c p)).run (s.materials c.object.material).stateCommands =
      τ.run (s.fullCommands d c p) := by
  simp only [fullCommands, DeviceState.run_append]
  exact DeviceState.run_run_run_of_disjoint _ (disjoint_state_instance hi)

/-- A register that the overrides of a call leave alone holds at its draw what binding the material
put there. -/
theorem run_fullCommands_of_bindCommands {r : Register} {x : Command}
    (hm : (s.materials c.object.material).parameters.Unreserved)
    (hr : ¬ ∃ n ∈ c.object.parameters.keys, r = .uniform n)
    (hx : lastFor? r ((s.materials c.object.material).bindCommands p) = some x) :
    τ.run (s.fullCommands d c p) r = some x := by
  have hbind : r ∈ registers ((s.materials c.object.material).bindCommands p) :=
    mem_registers_of_lastFor?_eq_some hx
  simp only [fullCommands, DeviceState.run_append]
  rw [DeviceState.run_eq_of_notMem _ fun h => hr (exists_of_mem_registers_bind_instance hm hbind h),
    DeviceState.run_eq_of_notMem _ fun h => disjoint_state_bind hm h hbind,
    DeviceState.run_eq_of_notMem _ fun h => disjoint_lights_bind hm h hbind,
    DeviceState.run_eq, hx, Option.some_or]

/-- Restoring the overrides of a call does what binding its material again does. -/
theorem run_commandsFor_drawn (hm : (s.materials c.object.material).parameters.Unreserved) :
    (τ.run (s.fullCommands d c p)).run
        ((s.materials c.object.material).parameters.commandsFor c.object.parameters.keys) =
      (τ.run (s.fullCommands d c p)).run ((s.materials c.object.material).bindCommands p) := by
  funext r
  rw [DeviceState.run_eq (τ.run _), DeviceState.run_eq (τ.run _)]
  -- Both set an overridden parameter of the material alike, and every other register still holds
  -- what binding put there.
  by_cases hr : ∃ n ∈ c.object.parameters.keys, r = .uniform n
  · obtain ⟨n, hn, rfl⟩ := hr
    rw [Parameters.lastFor?_commandsFor _ hn, lastFor?_uniform_bindCommands]
  · have hrestore : lastFor? r ((s.materials c.object.material).parameters.commandsFor
        c.object.parameters.keys) = none :=
      lastFor?_eq_none_iff.2 fun h => hr (Parameters.mem_names_of_mem_registers h)
    rw [hrestore, Option.none_or]
    cases hx : lastFor? r ((s.materials c.object.material).bindCommands p) with
    | none => rw [Option.none_or]
    | some x => rw [Option.some_or, run_fullCommands_of_bindCommands hm hr hx]

end Drawn

/-- A call without a program leaves the next call ready. -/
theorem Ready.next_of_error {e : ShaderError} {shared : Bool} (h : s.Ready progress σ τ c)
    (he : c.variant.program = .error e) (hf : Follows (some c) next) :
    s.Ready (s.call progress c shared).1 σ τ next where
  same _ := h.same (.inr (by simp only [Variant.isFailed, he]))
  bound p hp hn := by
    rw [hf.variant c rfl hn, he] at hp
    cases hp
  lit hmask hpending := by
    rw [lightsPending_call_of_error he, Bool.or_eq_false_iff] at hpending
    rw [lightCommands_congr setup_call, ← hf.mask_eq hmask]
    exact h.lit hpending.2 hpending.1

/-- A drawn call leaves the next call ready, if the state that it overrides is restored for a call
that shares its material. -/
theorem ready_next_of_ok {shared : Bool} (hp : c.variant.program = .ok p)
    (hm : (s.materials c.object.material).parameters.Unreserved)
    (hi : c.object.parameters.Unreserved) (hf : Follows (some c) next)
    (hs : shared = !next.newMaterial) :
    s.Ready (s.call progress c shared).1
      ((τ.run (s.fullCommands progress.dispatcher c p)).run (s.restoreCommands c shared))
      (τ.run (s.fullCommands progress.dispatcher c p)) next where
  same hnext := by
    -- A call that shares its material has the variant of this one, which has a program.
    have hn : next.newMaterial = true := by
      by_contra hn
      rcases hnext with hnext | hnext
      · exact hn hnext
      · rw [hf.variant c rfl (by simpa using hn)] at hnext
        simp only [Variant.isFailed, hp] at hnext
        cases hnext
    rw [hs, hn]
    rfl
  bound q hq hn := by
    rw [hf.variant c rfl hn, hp] at hq
    cases hq
    rw [← hf.material_eq hn, hs, hn]
    simp only [restoreCommands, Bool.not_false, if_true]
    rw [run_commandsFor_drawn hm]
    refine ⟨rfl, ?_⟩
    exact DeviceState.run_run_of_disjoint (run_stateCommands_drawn hi) (disjoint_state_bind hm)
  lit hmask _ := by
    rw [lightCommands_congr setup_call, ← hf.mask_eq hmask]
    cases shared with
    | true =>
      exact DeviceState.run_run_of_disjoint (run_lightCommands_drawn hi)
        (disjoint_lights_restore hi)
    | false => exact run_lightCommands_drawn hi

/-- From a ready call on, a submission shows at every draw what it would show if every call set all
of its state. -/
theorem draws_calls {previous : Option DrawCall} {cs : List DrawCall} (hl : Linked previous cs)
    (hu : ∀ c ∈ cs, c.object.parameters.Unreserved ∧
      (s.materials c.object.material).parameters.Unreserved)
    (hd : progress.dispatcher.setup = progress'.dispatcher.setup)
    (h : ∀ c ∈ cs.head?, s.Ready progress σ τ c) :
    σ.draws (s.calls progress cs).2 = τ.draws (s.calls progress' (cs.map DrawCall.alone)).2 := by
  induction cs generalizing previous progress progress' σ τ with
  | nil => rfl
  | cons c cs ih =>
    obtain ⟨hi, hm⟩ := hu c List.mem_cons_self
    have hready : s.Ready progress σ τ c := h c rfl
    have hnext : ∀ next ∈ cs.head?, Follows (some c) next := Linked.follows hl.2
    have hsetup : ∀ a b, (s.call progress c a).1.dispatcher.setup =
        (s.call progress' c.alone b).1.dispatcher.setup := fun a b => by
      rw [setup_call, setup_call, hd]
    rw [List.map_cons, calls_cons, calls_cons, shares_alone, DeviceState.draws_append,
      DeviceState.draws_append]
    cases hp : c.variant.program with
    | error e =>
      -- Neither submission does anything.  What the call was to dispatch stays pending.
      have hp' : c.alone.variant.program = .error e := hp
      rw [commands_call_of_error hp, commands_call_of_error hp']
      exact congrArg _ (ih hl.2 (fun d hd => hu d (List.mem_cons_of_mem c hd)) (hsetup _ _)
        fun next hn => hready.next_of_error hp (hnext next hn))
    | ok p =>
      have hp' : c.alone.variant.program = .ok p := hp
      have hfull : s.fullCommands progress'.dispatcher c p =
          s.fullCommands progress.dispatcher c p := by
        rw [fullCommands, fullCommands, lightCommands_congr hd]
      rw [draws_call hp, draws_call hp', run_call hp, run_call hp', setCommands_alone, hfull,
        hready.run_setCommands hp hm]
      refine congrArg _ (ih hl.2 (fun d hd => hu d (List.mem_cons_of_mem c hd)) (hsetup _ _)
        fun next hn => ?_)
      refine ready_next_of_ok hp hm hi (hnext next hn) ?_
      rw [Option.mem_def.1 hn]
      rfl

end Submission

/-- Parameters of a layer that are none of the uniforms that submission itself sets. -/
def Layer.Unreserved (l : Layer) : Prop :=
  ∀ i ∈ l.instances, i.parameters.Unreserved ∧ (l.materials i.material).parameters.Unreserved

namespace Renderer

/-- The commands of a layer where every call sets all of its state: it binds its material, dispatches
its lights, and has nothing to restore. -/
def plainCommands (r : Renderer) (l : Layer) : List Command :=
  r.clusterCommands l ++
    ((r.submission l).calls (r.start l) ((r.drawLayer l).prepared.calls.map DrawCall.alone)).2

/-- Each call of a layer is ready when it comes up. -/
theorem draws_submitted (r : Renderer) {l : Layer} (h : l.Unreserved) (δ : DeviceState) :
    δ.draws (r.submitted l) =
      δ.draws ((r.submission l).calls (r.start l)
        ((r.drawLayer l).prepared.calls.map DrawCall.alone)).2 :=
  Submission.draws_calls (r.linked_drawLayer l)
    (fun c hc => h c.object (r.object_mem_instances l hc)) rfl fun c hc =>
      Submission.ready_first _ ((r.linked_drawLayer l).follows c hc) _ _

/-- Every draw of a layer sees the state that it would see if each call set all of its state. -/
theorem draws_drawLayer (r : Renderer) {l : Layer} (h : l.Unreserved) (δ : DeviceState) :
    δ.draws (r.drawLayer l).commands = δ.draws (r.plainCommands l) := by
  rw [commands_drawLayer, plainCommands, DeviceState.draws_append, DeviceState.draws_append,
    r.draws_submitted h]

end Renderer

theorem not_isReserved_tint : ∀ name ∈ ["tint"], ¬ IsReserved name := by
  rintro name hname (h | h | h | ⟨slot, u, h⟩) <;> rw [List.mem_singleton.1 hname] at h
  · exact absurd h (by decide)
  · exact absurd h (by decide)
  · exact absurd h (by decide)
  · exact LightUniform.name_ne slot u (by decide) h.symm

theorem Layer.unreserved_tinted : Layer.tinted.Unreserved := by
  intro i hi
  refine ⟨?_, not_isReserved_tint⟩
  rcases List.mem_pair.1 hi with rfl | rfl
  · exact fun name hname => absurd hname List.not_mem_nil
  · exact not_isReserved_tint

theorem Renderer.draws_drawLayer_tinted :
    Layer.tinted.Unreserved ∧
      DeviceState.draws (fun _ => none) (Renderer.initial.drawLayer .tinted).commands =
        DeviceState.draws (fun _ => none) (Renderer.initial.plainCommands .tinted) :=
  ⟨Layer.unreserved_tinted, Renderer.initial.draws_drawLayer Layer.unreserved_tinted _⟩

end ForwardShading
