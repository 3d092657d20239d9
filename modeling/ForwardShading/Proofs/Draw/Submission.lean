import ForwardShading.Draw.Submission
import ForwardShading.Proofs.Light.Dispatch
import ForwardShading.Proofs.Scene.Parameters
import Mathlib.Data.List.Forall2

/-!
# The parts of a submitted call

A call with a program sets its state (`Submission.setCommands`), draws, and takes its overrides back
(`Submission.restoreCommands`); a call without a program does nothing but leave a dispatch pending.
The parts of the state are set by the material, by the lights and by the instance.  Where parameters
keep away from the uniforms that submission itself sets (`IsReserved`), the parts share no register
but those of the overrides.
-/

namespace ForwardShading

/-- The uniforms that submission itself sets. -/
def IsReserved (name : String) : Prop :=
  name = "alpha_ref" ∨ name = "matrix_model" ∨ name = "matrix_normal" ∨
    ∃ slot u, name = LightUniform.name slot u

/-- Parameters that are none of the uniforms that submission itself sets. -/
def Parameters.Unreserved (ps : Parameters) : Prop :=
  ∀ name ∈ ps.keys, ¬ IsReserved name

theorem LightUniform.head?_name (slot : Nat) (u : LightUniform) :
    (name slot u).toList.head? = some 'l' := by
  simp only [name, String.toList_append]
  rfl

theorem LightUniform.name_ne (slot : Nat) (u : LightUniform) {other : String}
    (h : other.toList.head? ≠ some 'l') : name slot u ≠ other := by
  rintro rfl
  exact h (head?_name slot u)

namespace Instance

/-- The bytes of an object's uniform buffer. -/
def objectBuffer (i : Instance) (l : Std140.Layout) : Std140.Buffer :=
  i.fillBuffer l #[]

/-- What was in the buffer before does not show in it. -/
theorem fillBuffer_eq (i : Instance) (l : Std140.Layout) (b : Std140.Buffer) :
    i.fillBuffer l b = i.objectBuffer l := by
  simp only [objectBuffer, fillBuffer, Std140.Buffer.resize_clear]

end Instance

namespace Submission

variable (s : Submission) (progress : Progress) (c : DrawCall)

/-- The commands that dispatch the lights for a mask. -/
def lightCommands (d : Dispatcher) (mask : UInt32) : List Command :=
  (d.dispatchAll s.lights mask s.camera s.clustered).commands

/-- What a call sets for its instance alone. -/
def instanceCommands (m : Material) (i : Instance) (p : Program) : List Command :=
  [.cull (cullMode s.camera s.flipTarget m.cull i), .stencil (i.stencil.or m.stencil)] ++
  i.parameters.commands ++ i.vertexCommands ++
    i.objectCommands p (i.objectBuffer p.layout.uniforms)

/-- What a call sets before it draws. -/
def setCommands (p : Program) : List Command :=
  let m := s.materials c.object.material
  (if c.newMaterial then m.bindCommands p else []) ++
  (if c.maskChanged || progress.lightsPending then
    s.lightCommands progress.dispatcher c.object.mask
  else
    []) ++
  (if c.newMaterial then m.stateCommands else []) ++ s.instanceCommands m c.object p

/-- What a call sets after it has drawn. -/
def restoreCommands (shared : Bool) : List Command :=
  if shared then
    (s.materials c.object.material).parameters.commandsFor c.object.parameters.keys
  else
    []

section Call

variable {s progress c} {shared : Bool} {p : Program} {e : ShaderError}

theorem commands_call_of_error (h : c.variant.program = .error e) :
    (s.call progress c shared).2 = [] := by
  simp only [call, h]

/-- The buffer that a call has filled is set where there is one to set. -/
theorem objectCommands_fillBuffer (i : Instance) (p : Program) (b : Std140.Buffer) :
    i.objectCommands p
        (if p.dialect.usesUniformBuffers then i.fillBuffer p.layout.uniforms b else b) =
      i.objectCommands p (i.objectBuffer p.layout.uniforms) := by
  by_cases hd : p.dialect.usesUniformBuffers = true
  · rw [if_pos hd, Instance.fillBuffer_eq]
  · simp only [Instance.objectCommands, if_neg hd]

theorem commands_call_of_ok (h : c.variant.program = .ok p) :
    (s.call progress c shared).2 =
      s.setCommands progress c p ++ [c.object.drawCommand] ++ s.restoreCommands c shared := by
  by_cases hl : (c.maskChanged || progress.lightsPending) = true
  · simp only [call, h, dispatch?, if_pos hl, setCommands, restoreCommands, lightCommands,
      drawCommands, instanceCommands, objectCommands_fillBuffer, Option.map_some, Option.getD_some,
      List.append_assoc]
  · simp only [call, h, dispatch?, if_neg hl, setCommands, restoreCommands, drawCommands,
      instanceCommands, objectCommands_fillBuffer, Option.map_none, Option.getD_none,
      List.append_assoc]

theorem lightsPending_call_of_error (h : c.variant.program = .error e) :
    (s.call progress c shared).1.lightsPending = (progress.lightsPending || c.maskChanged) := by
  simp only [call, h]

theorem lightsPending_call_of_ok (h : c.variant.program = .ok p) :
    (s.call progress c shared).1.lightsPending = false := by
  simp only [call, h]

theorem setup_call : (s.call progress c shared).1.dispatcher.setup = progress.dispatcher.setup := by
  cases h : c.variant.program with
  | error e => simp only [call, h]
  | ok p =>
    by_cases hl : (c.maskChanged || progress.lightsPending) = true
    · simp [call, h, dispatch?, hl]
    · simp only [call, h, dispatch?, if_neg hl, Option.map_none, Option.getD_none]

theorem lightCommands_congr {d d' : Dispatcher} (h : d.setup = d'.setup) (mask : UInt32) :
    s.lightCommands d mask = s.lightCommands d' mask :=
  Dispatcher.commands_dispatchAll_congr _ _ _ h _

end Call

section Registers

variable {r : Register} {m : Material} {i : Instance} {p : Program}

theorem mem_registers_bindCommands (h : r ∈ registers (m.bindCommands p)) :
    r = .shader ∨ (∃ n ∈ m.parameters.keys, r = .uniform n) ∨ r = .bindGroup .material := by
  rw [Material.bindCommands, ← List.singleton_append, registers_append, registers_append] at h
  simp only [List.mem_append] at h
  rcases h with (h | h) | h
  · exact .inl (by simpa [registers, Command.register?] using h)
  · exact .inr (.inl (Parameters.mem_registers_commands.1 h))
  · obtain ⟨c, hc, hr⟩ := mem_registers.1 h
    simp only [Option.mem_toList, Option.map_eq_some_iff] at hc
    obtain ⟨g, -, rfl⟩ := hc
    exact .inr (.inr (Option.some.inj hr).symm)

/-- Binding a material gives a uniform the value of the parameter. -/
theorem lastFor?_uniform_bindCommands (m : Material) (p : Program) (n : String) :
    lastFor? (.uniform n) (m.bindCommands p) = (m.parameters.get? n).map (.uniform n) := by
  have hgroup : lastFor? (.uniform n)
      (m.resources.textures.map (Command.bindGroup .material)).toList = none := by
    cases m.resources.textures <;> rfl
  rw [Material.bindCommands, ← List.singleton_append, lastFor?_append, hgroup, Option.none_or,
    lastFor?_append, Parameters.lastFor?_commands]
  exact Option.or_none

theorem mem_registers_lightCommands {d : Dispatcher} {mask : UInt32}
    (h : r ∈ registers (s.lightCommands d mask)) :
    ∃ slot u, r = .uniform (LightUniform.name slot u) := by
  rw [lightCommands, Dispatcher.commands_dispatchAll] at h
  obtain ⟨slot, -, u, hr⟩ := mem_registers_slotCommands h
  exact ⟨0 + slot, u, hr⟩

theorem mem_registers_stateCommands (h : r ∈ registers m.stateCommands) :
    r = .uniform "alpha_ref" ∨ r = .blend ∨ r = .depth := by
  simpa [registers, Material.stateCommands, Command.register?] using h

theorem mem_registers_vertexCommands (h : r ∈ registers i.vertexCommands) :
    ∃ slot, r = .vertexBuffer slot := by
  obtain ⟨c, hc, hr⟩ := mem_registers.1 h
  rcases List.mem_cons.1 hc with rfl | hc
  · exact ⟨0, (Option.some.inj hr).symm⟩
  · simp only [Option.mem_toList, Option.map_eq_some_iff] at hc
    obtain ⟨data, -, rfl⟩ := hc
    exact ⟨1, (Option.some.inj hr).symm⟩

theorem mem_registers_objectCommands {b : Std140.Buffer}
    (h : r ∈ registers (i.objectCommands p b)) :
    r = .uniformBuffer .objectUniforms ∨ r = .uniform "matrix_model" ∨
      r = .uniform "matrix_normal" ∨ r = .bindGroup .object := by
  simp only [Instance.objectCommands, registers_append, List.mem_append] at h
  rcases h with (h | h) | h
  · by_cases hd : p.dialect.usesUniformBuffers = true
    · rw [if_pos hd] at h
      exact .inl (by simpa [registers, Command.register?] using h)
    · rw [if_neg hd] at h
      cases h
  · simp only [registers, Command.register?, List.filterMap_cons, List.filterMap_nil,
      List.mem_cons, List.not_mem_nil, or_false] at h
    exact .inr (h.imp id .inl)
  · by_cases ht : p.layout.textures.textures = []
    · rw [if_pos ht] at h
      cases h
    · rw [if_neg ht] at h
      exact .inr (.inr (.inr (by simpa [registers, Command.register?] using h)))

theorem mem_registers_instanceCommands (h : r ∈ registers (s.instanceCommands m i p)) :
    r = .cull ∨ r = .stencil ∨ (∃ n ∈ i.parameters.keys, r = .uniform n) ∨
      (∃ slot, r = .vertexBuffer slot) ∨ r = .uniformBuffer .objectUniforms ∨
      r = .uniform "matrix_model" ∨ r = .uniform "matrix_normal" ∨ r = .bindGroup .object := by
  simp only [instanceCommands, registers_append, List.mem_append] at h
  rcases h with ((h | h) | h) | h
  · have hfixed : r = .cull ∨ r = .stencil := by simpa [registers, Command.register?] using h
    exact hfixed.imp id .inl
  · exact .inr (.inr (.inl (Parameters.mem_registers_commands.1 h)))
  · exact .inr (.inr (.inr (.inl (mem_registers_vertexCommands h))))
  · exact .inr (.inr (.inr (.inr (mem_registers_objectCommands h))))

end Registers

section Disjoint

variable {s} {m : Material} {i : Instance} {p : Program} {d : Dispatcher} {mask : UInt32}

theorem not_isReserved_light {ps : Parameters} (h : ps.Unreserved) (slot : Nat) (u : LightUniform) :
    LightUniform.name slot u ∉ ps.keys := fun hn =>
  h _ hn (.inr (.inr (.inr ⟨slot, u, rfl⟩)))

/-- Lights keep away from commands that set no uniform of a light. -/
theorem disjoint_lights {cs : List Command}
    (h : ∀ slot u, .uniform (LightUniform.name slot u) ∉ registers cs) :
    (registers (s.lightCommands d mask)).Disjoint (registers cs) := by
  intro r hl hr
  obtain ⟨slot, u, rfl⟩ := mem_registers_lightCommands s hl
  exact h slot u hr

theorem disjoint_lights_bind (hm : m.parameters.Unreserved) :
    (registers (s.lightCommands d mask)).Disjoint (registers (m.bindCommands p)) := by
  refine disjoint_lights fun slot u hr => not_isReserved_light hm slot u ?_
  simpa using mem_registers_bindCommands hr

theorem disjoint_lights_state :
    (registers (s.lightCommands d mask)).Disjoint (registers m.stateCommands) := by
  refine disjoint_lights fun slot u hr => ?_
  have hname : LightUniform.name slot u = "alpha_ref" := by
    simpa using mem_registers_stateCommands hr
  exact LightUniform.name_ne slot u (by decide) hname

theorem disjoint_lights_instance (hi : i.parameters.Unreserved) :
    (registers (s.lightCommands d mask)).Disjoint (registers (s.instanceCommands m i p)) := by
  refine disjoint_lights fun slot u hr => ?_
  have hname : LightUniform.name slot u ∈ i.parameters.keys ∨
      LightUniform.name slot u = "matrix_model" ∨ LightUniform.name slot u = "matrix_normal" := by
    simpa using mem_registers_instanceCommands s hr
  rcases hname with h | h | h
  · exact not_isReserved_light hi slot u h
  · exact LightUniform.name_ne slot u (by decide) h
  · exact LightUniform.name_ne slot u (by decide) h

theorem disjoint_lights_restore (hi : i.parameters.Unreserved) :
    (registers (s.lightCommands d mask)).Disjoint
      (registers (m.parameters.commandsFor i.parameters.keys)) := by
  refine disjoint_lights fun slot u hr => not_isReserved_light hi slot u ?_
  simpa using Parameters.mem_names_of_mem_registers hr

theorem disjoint_state_bind (hm : m.parameters.Unreserved) :
    (registers m.stateCommands).Disjoint (registers (m.bindCommands p)) := by
  intro r hs hr
  rcases mem_registers_stateCommands hs with rfl | rfl | rfl
  · have hname : "alpha_ref" ∈ m.parameters.keys := by
      simpa using mem_registers_bindCommands hr
    exact hm _ hname (.inl rfl)
  · simpa using mem_registers_bindCommands hr
  · simpa using mem_registers_bindCommands hr

theorem disjoint_state_instance (hi : i.parameters.Unreserved) :
    (registers m.stateCommands).Disjoint (registers (s.instanceCommands m i p)) := by
  intro r hs hr
  rcases mem_registers_stateCommands hs with rfl | rfl | rfl
  · have hname : "alpha_ref" ∈ i.parameters.keys := by
      simpa using mem_registers_instanceCommands s hr
    exact hi _ hname (.inl rfl)
  · simpa using mem_registers_instanceCommands s hr
  · simpa using mem_registers_instanceCommands s hr

/-- Of what a material binds, its instance sets only what it overrides. -/
theorem exists_of_mem_registers_bind_instance {r : Register} (hm : m.parameters.Unreserved)
    (hb : r ∈ registers (m.bindCommands p)) (hr : r ∈ registers (s.instanceCommands m i p)) :
    ∃ n ∈ i.parameters.keys, r = .uniform n := by
  rcases mem_registers_bindCommands hb with rfl | ⟨n, hn, rfl⟩ | rfl
  · simpa using mem_registers_instanceCommands s hr
  · have hname : n ∈ i.parameters.keys ∨ n = "matrix_model" ∨ n = "matrix_normal" := by
      simpa using mem_registers_instanceCommands s hr
    rcases hname with h | rfl | rfl
    · exact ⟨n, h, rfl⟩
    · exact absurd (.inr (.inl rfl)) (hm _ hn)
    · exact absurd (.inr (.inr (.inl rfl))) (hm _ hn)
  · simpa using mem_registers_instanceCommands s hr

end Disjoint

section Draws

variable {s progress c} {shared : Bool} {p : Program}

theorem isDraw_of_mem_instanceCommands {m : Material} {i : Instance} {x : Command}
    (h : x ∈ s.instanceCommands m i p) : x.isDraw = false := by
  simp only [instanceCommands, Parameters.commands, Instance.vertexCommands,
    Instance.objectCommands, List.mem_append, List.mem_cons, List.not_mem_nil, or_false,
    List.mem_map, Option.mem_toList, Option.map_eq_some_iff] at h
  split_ifs at h <;> grind [Command.isDraw]

theorem isDraw_of_mem_bindCommands {m : Material} {x : Command} (h : x ∈ m.bindCommands p) :
    x.isDraw = false := by
  simp only [Material.bindCommands, Parameters.commands, List.mem_append, List.mem_cons,
    List.mem_map, Option.mem_toList, Option.map_eq_some_iff] at h
  grind [Command.isDraw]

theorem isDraw_of_mem_lightCommands {d : Dispatcher} {mask : UInt32} {x : Command}
    (h : x ∈ s.lightCommands d mask) : x.isDraw = false := by
  rw [lightCommands, Dispatcher.commands_dispatchAll] at h
  obtain ⟨_, _, _, _, -, -, rfl⟩ := mem_slotCommands.1 h
  rfl

theorem isDraw_of_mem_stateCommands {m : Material} {x : Command} (h : x ∈ m.stateCommands) :
    x.isDraw = false := by
  simp only [Material.stateCommands, List.mem_cons, List.not_mem_nil, or_false] at h
  rcases h with rfl | rfl | rfl <;> rfl

theorem isDraw_of_mem_setCommands {x : Command} (h : x ∈ s.setCommands progress c p) :
    x.isDraw = false := by
  simp only [setCommands, List.mem_append, List.mem_ite_nil_right] at h
  rcases h with ((h | h) | h) | h
  · exact isDraw_of_mem_bindCommands h.2
  · exact isDraw_of_mem_lightCommands h.2
  · exact isDraw_of_mem_stateCommands h.2
  · exact isDraw_of_mem_instanceCommands h

theorem isDraw_of_mem_restoreCommands {x : Command} (h : x ∈ s.restoreCommands c shared) :
    x.isDraw = false := by
  simp only [restoreCommands, List.mem_ite_nil_right] at h
  obtain ⟨n, -, v, -, rfl⟩ := Parameters.mem_commandsFor.1 h.2
  rfl

/-- A call draws once, behind all that it sets. -/
theorem draws_call (h : c.variant.program = .ok p) (δ : DeviceState) :
    δ.draws (s.call progress c shared).2 =
      [(δ.run (s.setCommands progress c p), c.object.drawCommand)] := by
  rw [commands_call_of_ok h, DeviceState.draws_append,
    DeviceState.draws_append_draw (fun _ => isDraw_of_mem_setCommands) rfl,
    DeviceState.draws_eq_nil fun _ => isDraw_of_mem_restoreCommands, List.append_nil]

/-- Behind a call the device is as at its draw, but for what is restored. -/
theorem run_call (h : c.variant.program = .ok p) (δ : DeviceState) :
    δ.run (s.call progress c shared).2 =
      (δ.run (s.setCommands progress c p)).run (s.restoreCommands c shared) := by
  rw [commands_call_of_ok h, DeviceState.run_append, DeviceState.run_append,
    DeviceState.run_draw rfl]

end Draws

section Calls

/-- The calls that have a program, each with its program. -/
def drawnCalls (cs : List DrawCall) : List (DrawCall × Program) :=
  cs.filterMap fun c => c.variant.program.toOption.map (c, ·)

theorem mem_drawnCalls {c : DrawCall} {p : Program} {cs : List DrawCall} :
    (c, p) ∈ drawnCalls cs ↔ c ∈ cs ∧ c.variant.program = .ok p := by
  rw [drawnCalls, List.mem_filterMap]
  constructor
  · rintro ⟨c', hc, h⟩
    obtain ⟨q, hq, h⟩ := Option.map_eq_some_iff.1 h
    cases h
    cases hp : c.variant.program with
    | error e =>
      rw [hp] at hq
      cases hq
    | ok p' =>
      rw [hp] at hq
      cases hq
      exact ⟨hc, rfl⟩
  · rintro ⟨hc, hp⟩
    exact ⟨c, hc, by rw [hp]; rfl⟩

theorem drawnCalls_cons_of_error {c : DrawCall} {e : ShaderError}
    (h : c.variant.program = .error e) (cs : List DrawCall) :
    drawnCalls (c :: cs) = drawnCalls cs := by
  rw [drawnCalls, List.filterMap_cons, h]
  rfl

theorem drawnCalls_cons_of_ok {c : DrawCall} {p : Program} (h : c.variant.program = .ok p)
    (cs : List DrawCall) : drawnCalls (c :: cs) = (c, p) :: drawnCalls cs := by
  rw [drawnCalls, List.filterMap_cons, h]
  rfl

theorem calls_cons (progress : Progress) (c : DrawCall) (cs : List DrawCall) :
    (s.calls progress (c :: cs)).2 =
      (s.call progress c (cs.head?.any (!·.newMaterial))).2 ++
        (s.calls (s.call progress c (cs.head?.any (!·.newMaterial))).1 cs).2 :=
  rfl

/-- What holds of every call with a program, in the state of its draw, holds along all calls.  The
dispatcher stays set up as it is before the first one. -/
theorem forall₂_draws_calls {P : DrawCall × Program → DeviceState × Command → Prop}
    {setup : Nat × Bool × Bool} {cs : List DrawCall}
    (h : ∀ c ∈ cs, ∀ p, c.variant.program = .ok p → ∀ (progress : Progress) (δ : DeviceState),
      progress.dispatcher.setup = setup →
        P (c, p) (δ.run (s.setCommands progress c p), c.object.drawCommand))
    {progress : Progress} (hs : progress.dispatcher.setup = setup) (δ : DeviceState) :
    List.Forall₂ P (drawnCalls cs) (δ.draws (s.calls progress cs).2) := by
  induction cs generalizing progress δ with
  | nil => exact .nil
  | cons c cs ih =>
    have ih := @ih fun d hd => h d (List.mem_cons_of_mem c hd)
    rw [calls_cons, DeviceState.draws_append]
    cases hp : c.variant.program with
    | error e =>
      rw [drawnCalls_cons_of_error hp, commands_call_of_error hp]
      exact ih (setup_call.trans hs) _
    | ok p =>
      rw [drawnCalls_cons_of_ok hp, draws_call hp]
      exact .cons (h c List.mem_cons_self p hp _ _ hs) (ih (setup_call.trans hs) _)

end Calls

end Submission

end ForwardShading
