import ForwardShading.Proofs.Draw.Batches
import ForwardShading.Proofs.Draw.History
import ForwardShading.Proofs.Draw.Skipped

/-!
# Counters

A renderer counts draws, draws with instancing data, changes of material and skipped instances.  A
call with a program issues one draw, and one shader where it has a new material
(`Submission.countP_commands_calls`).  A call without a new material comes behind one with the same
program, so the last shader in front of each draw is that of its own call
(`Submission.forall₂_seesShader_calls`).  From their reset on, the counters account for the instances
and the commands of all layers (`Renderer.accounts_record`).
-/

namespace ForwardShading

namespace Command

/-- Whether a command sets a program. -/
def isShader : Command → Bool
  | shader _ => true
  | _ => false

theorem isShader_iff {c : Command} : c.isShader = true ↔ c.register? = some .shader := by
  cases c <;> simp [isShader, register?]

/-- Commands without a shader are those that do not set it. -/
theorem countP_isShader_eq_zero {cs : List Command} (h : Register.shader ∉ registers cs) :
    cs.countP (·.isShader) = 0 := by
  rw [List.countP_eq_zero]
  exact fun c hc hs => h (mem_registers.2 ⟨c, hc, isShader_iff.1 hs⟩)

theorem countP_eq_zero {test : Command → Bool} {cs : List Command} (h : ∀ c ∈ cs, test c = false) :
    cs.countP test = 0 :=
  List.countP_eq_zero.2 fun c hc => Bool.eq_false_iff.1 (h c hc)

/-- Holds of commands that set the shader of a program, and no other shader behind it. -/
def LastShader (p : Program) (cs : List Command) : Prop :=
  ∃ front back, cs = front ++ .shader p :: back ∧ ∀ c ∈ back, c.isShader = false

theorem lastShader_of_lastFor? {p : Program} {cs : List Command}
    (h : lastFor? .shader cs = some (.shader p)) : LastShader p cs := by
  obtain ⟨-, behind, front, hcs, hbehind⟩ := List.find?_eq_some_iff_append.1 h
  refine ⟨front.reverse, behind.reverse, ?_, fun c hc => ?_⟩
  · simpa using congrArg List.reverse hcs
  · have hnot := hbehind c (List.mem_reverse.1 hc)
    rw [← Bool.not_eq_true, isShader_iff]
    simpa using hnot

end Command

instance : Add RenderStats where
  add a b :=
    { draws := a.draws + b.draws
      instancedDraws := a.instancedDraws + b.instancedDraws
      materialSwitches := a.materialSwitches + b.materialSwitches
      skippedDraws := a.skippedDraws + b.skippedDraws }

theorem RenderStats.add_assoc (a b c : RenderStats) : a + b + c = a + (b + c) := by
  simp only [HAdd.hAdd, Add.add, RenderStats.mk.injEq]
  exact ⟨Nat.add_assoc _ _ _, Nat.add_assoc _ _ _, Nat.add_assoc _ _ _, Nat.add_assoc _ _ _⟩

namespace Submission

variable {s : Submission} {progress : Progress} {c : DrawCall} {p : Program} {shared : Bool}

/-! ## Shaders of a call -/

theorem shader_notMem_lightCommands (d : Dispatcher) (mask : UInt32) :
    Register.shader ∉ registers (s.lightCommands d mask) := fun h => by
  obtain ⟨slot, u, hr⟩ := mem_registers_lightCommands s h
  cases hr

theorem shader_notMem_stateCommands (m : Material) :
    Register.shader ∉ registers m.stateCommands := fun h => by
  simpa using mem_registers_stateCommands h

theorem shader_notMem_instanceCommands (m : Material) (i : Instance) :
    Register.shader ∉ registers (s.instanceCommands m i p) := fun h => by
  simpa using mem_registers_instanceCommands s h

theorem shader_notMem_restoreCommands : Register.shader ∉ registers (s.restoreCommands c shared) := by
  intro h
  unfold restoreCommands at h
  split_ifs at h
  · obtain ⟨n, -, hr⟩ := Parameters.mem_names_of_mem_registers h
    cases hr
  · cases h

/-- Binding a material sets the shader first, and no shader behind it. -/
theorem exists_bindCommands_eq (m : Material) (p : Program) :
    ∃ rest, Register.shader ∉ registers rest ∧ m.bindCommands p = .shader p :: rest := by
  refine ⟨m.parameters.commands ++ (m.resources.textures.map (.bindGroup .material)).toList,
    fun h => ?_, rfl⟩
  rw [registers_append, List.mem_append] at h
  rcases h with h | h
  · obtain ⟨n, -, hr⟩ := Parameters.mem_registers_commands.1 h
    cases hr
  · obtain ⟨c, hc, hr⟩ := mem_registers.1 h
    simp only [Option.mem_toList, Option.map_eq_some_iff] at hc
    obtain ⟨g, -, rfl⟩ := hc
    cases hr

/-- A call sets the shader where it has a new material, before all else. -/
theorem exists_setCommands_eq (progress : Progress) (c : DrawCall) (p : Program) :
    ∃ rest, Register.shader ∉ registers rest ∧
      s.setCommands progress c p = (if c.newMaterial then [.shader p] else []) ++ rest := by
  obtain ⟨bound, hbound, hbind⟩ := exists_bindCommands_eq (s.materials c.object.material) p
  have hstate := shader_notMem_stateCommands (s.materials c.object.material)
  have hinstance := @shader_notMem_instanceCommands s p (s.materials c.object.material) c.object
  simp only [setCommands, hbind]
  generalize hlights : (if c.maskChanged || progress.lightsPending then
    s.lightCommands progress.dispatcher c.object.mask else []) = lights
  have hlit : Register.shader ∉ registers lights := by
    rw [← hlights]
    split_ifs
    · exact shader_notMem_lightCommands _ _
    · exact List.not_mem_nil
  cases c.newMaterial with
  | true => exact ⟨bound ++ lights ++ _ ++ _, by simp [hbound, hlit, hstate, hinstance], rfl⟩
  | false => exact ⟨lights ++ [] ++ _, by simp [hlit, hinstance], rfl⟩

theorem countP_isShader_setCommands (progress : Progress) (c : DrawCall) (p : Program) :
    (s.setCommands progress c p).countP (·.isShader) = if c.newMaterial then 1 else 0 := by
  obtain ⟨rest, hrest, heq⟩ := @exists_setCommands_eq s progress c p
  rw [heq, List.countP_append, Command.countP_isShader_eq_zero hrest]
  cases c.newMaterial <;> rfl

theorem lastFor?_shader_setCommands (progress : Progress) (c : DrawCall) (p : Program) :
    lastFor? .shader (s.setCommands progress c p) =
      if c.newMaterial then some (.shader p) else none := by
  obtain ⟨rest, hrest, heq⟩ := @exists_setCommands_eq s progress c p
  rw [heq, lastFor?_append, lastFor?_eq_none_iff.2 hrest, Option.none_or]
  cases c.newMaterial <;> rfl

/-- A call with a program draws once. -/
theorem countP_isDraw_call (h : c.variant.program = .ok p) :
    (s.call progress c shared).2.countP (·.isDraw) = 1 := by
  rw [commands_call_of_ok h, List.countP_append, List.countP_append,
    Command.countP_eq_zero fun _ => isDraw_of_mem_setCommands,
    Command.countP_eq_zero fun _ => isDraw_of_mem_restoreCommands]
  rfl

/-- A call with a program sets a shader where it has a new material. -/
theorem countP_isShader_call (h : c.variant.program = .ok p) :
    (s.call progress c shared).2.countP (·.isShader) = if c.newMaterial then 1 else 0 := by
  rw [commands_call_of_ok h, List.countP_append, List.countP_append, countP_isShader_setCommands,
    Command.countP_isShader_eq_zero shader_notMem_restoreCommands]
  rfl

/-! ## Counted calls -/

/-- What calls add to the counters. -/
def tally (cs : List DrawCall) : RenderStats where
  draws := (drawnCalls cs).length
  instancedDraws := (drawnCalls cs).countP (·.1.object.instancing.isSome)
  materialSwitches := (drawnCalls cs).countP (·.1.newMaterial)
  skippedDraws := cs.countP (·.variant.isFailed)

theorem tally_cons (c : DrawCall) (cs : List DrawCall) : tally (c :: cs) = tally [c] + tally cs := by
  have hdrawn : drawnCalls (c :: cs) = drawnCalls [c] ++ drawnCalls cs :=
    List.filterMap_append (l := [c])
  have hskipped : (c :: cs).countP (·.variant.isFailed) = [c].countP (·.variant.isFailed) +
      cs.countP (·.variant.isFailed) := by rw [← List.countP_append, List.singleton_append]
  simp only [tally, hdrawn, hskipped, List.length_append, List.countP_append]
  rfl

theorem tally_of_error {e : ShaderError} (h : c.variant.program = .error e) :
    tally [c] = { skippedDraws := 1 } := by
  have hfailed : c.variant.isFailed = true := by simp only [Variant.isFailed, h]
  simp only [tally, drawnCalls_cons_of_error h, List.countP_cons, hfailed]
  rfl

theorem tally_of_ok (h : c.variant.program = .ok p) :
    tally [c] =
      { draws := 1
        instancedDraws := if c.object.instancing.isSome then 1 else 0
        materialSwitches := if c.newMaterial then 1 else 0 } := by
  have hfailed : c.variant.isFailed = false := by simp only [Variant.isFailed, h]
  rw [tally, drawnCalls_cons_of_ok h]
  simp [drawnCalls, List.countP_cons, hfailed]

/-- What a call adds is a draw, or where it has no program a skipped instance. -/
theorem stats_call (progress : Progress) (c : DrawCall) (shared : Bool) :
    (s.call progress c shared).1.stats = progress.stats + tally [c] := by
  cases hp : c.variant.program with
  | error e =>
    rw [tally_of_error hp]
    simp only [call, hp]
    rfl
  | ok p =>
    rw [tally_of_ok hp]
    simp only [call, hp]
    rfl

theorem stats_calls (s : Submission) (progress : Progress) (cs : List DrawCall) :
    (s.calls progress cs).1.stats = progress.stats + tally cs := by
  induction cs generalizing progress with
  | nil => rfl
  | cons c cs ih =>
    rw [tally_cons, ← RenderStats.add_assoc, ← stats_call progress c]
    exact ih _

/-- The draws and the shaders of calls are those that are counted. -/
theorem countP_commands_calls (s : Submission) (progress : Progress) (cs : List DrawCall) :
    (s.calls progress cs).2.countP (·.isDraw) = (tally cs).draws ∧
      (s.calls progress cs).2.countP (·.isShader) = (tally cs).materialSwitches := by
  induction cs generalizing progress with
  | nil => exact ⟨rfl, rfl⟩
  | cons c cs ih =>
    rw [calls_cons, List.countP_append, List.countP_append, (ih _).1, (ih _).2, tally_cons]
    cases hp : c.variant.program with
    | error e =>
      rw [commands_call_of_error hp, tally_of_error hp]
      exact ⟨rfl, rfl⟩
    | ok p =>
      rw [countP_isDraw_call hp, countP_isShader_call hp, tally_of_ok hp]
      exact ⟨rfl, rfl⟩

/-- Calls without a program are counted as well as those with one. -/
theorem tally_total (cs : List DrawCall) :
    (tally cs).draws + (tally cs).skippedDraws = cs.length := by
  induction cs with
  | nil => rfl
  | cons c cs ih =>
    have hone : (tally [c]).draws + (tally [c]).skippedDraws = 1 := by
      cases hp : c.variant.program with
      | error e =>
        rw [tally_of_error hp]
        rfl
      | ok p =>
        rw [tally_of_ok hp]
        rfl
    rw [tally_cons, List.length_cons, ← ih, Nat.add_comm _ 1, ← hone]
    exact Nat.add_add_add_comm _ _ _ _

/-! ## Bound shaders -/

/-- Draws that are those of calls, in their order, each behind the shader of its own call. -/
structure BoundDraws (cs : List DrawCall) (commands : List Command) : Prop where
  draws : commands.filter (·.isDraw) = (drawnCalls cs).map fun x => x.1.object.drawCommand
  bound : ∀ front d back, commands = front ++ d :: back → d.isDraw = true →
    ∃ c p, (drawnCalls cs)[front.countP (·.isDraw)]? = some (c, p) ∧ c.variant.program = .ok p ∧
      d = c.object.drawCommand ∧ Command.LastShader p front

/-- A draw that sees the shader of its call. -/
def SeesShader (x : DrawCall × Program) (y : DeviceState × Command) : Prop :=
  y.2 = x.1.object.drawCommand ∧ y.1 .shader = some (.shader x.2)

/-- Holds of a device that has the program of a call, where there is one. -/
def HasProgram (δ : DeviceState) (c : DrawCall) : Prop :=
  ∀ p, c.variant.program = .ok p → δ .shader = some (.shader p)

theorem hasProgram_set {previous : Option DrawCall} {δ : DeviceState} (hc : Follows previous c)
    (h : ∀ d ∈ previous, HasProgram δ d) (progress : Progress) (hp : c.variant.program = .ok p) :
    δ.run (s.setCommands progress c p) .shader = some (.shader p) := by
  rw [DeviceState.run_eq, lastFor?_shader_setCommands]
  cases hn : c.newMaterial with
  | true => rfl
  | false =>
    -- Without a new material the call before has the same variant, and so it has a program too.
    cases previous with
    | none =>
      rw [hc.newMaterial_of_none] at hn
      cases hn
    | some d =>
      refine h d rfl p ?_
      rw [← hc.variant d rfl hn, hp]

/-- The induction goes over the calls with the one before, whose program the device still has. -/
theorem forall₂_seesShader_calls {previous : Option DrawCall} {cs : List DrawCall}
    (hl : Linked previous cs) {δ : DeviceState} (h : ∀ d ∈ previous, HasProgram δ d)
    (progress : Progress) :
    List.Forall₂ SeesShader (drawnCalls cs) (δ.draws (s.calls progress cs).2) := by
  induction cs generalizing previous δ progress with
  | nil => exact .nil
  | cons c cs ih =>
    obtain ⟨hc, hl⟩ := hl
    rw [calls_cons, DeviceState.draws_append]
    cases hp : c.variant.program with
    | error e =>
      -- A call that goes on with this one's material has no program either, and needs no shader.
      rw [drawnCalls_cons_of_error hp, commands_call_of_error hp]
      refine ih hl ?_ _
      rintro d ⟨⟩ p hd
      cases hp.symm.trans hd
    | ok p =>
      have hshader := @hasProgram_set s _ _ _ _ hc h progress hp
      rw [drawnCalls_cons_of_ok hp, draws_call hp]
      refine .cons ⟨rfl, hshader⟩ (ih hl ?_ _)
      rintro d ⟨⟩ q hd
      cases hp.symm.trans hd
      rw [run_call hp, DeviceState.run_eq_of_notMem _ shader_notMem_restoreCommands, hshader]

/-- Where a device that had no shader shows each call its own, the commands set it in front. -/
theorem boundDraws_of_seesShader {cs : List DrawCall} {commands : List Command}
    (h : List.Forall₂ SeesShader (drawnCalls cs) (DeviceState.draws (fun _ => none) commands)) :
    BoundDraws cs commands where
  draws := by
    rw [← DeviceState.map_snd_draws fun _ => none, eq_comm, ← List.forall₂_eq_eq_eq,
      List.forall₂_map_left_iff, List.forall₂_map_right_iff]
    exact h.imp fun _ _ hx => hx.1.symm
  bound := by
    rintro front d back rfl hd
    obtain ⟨hn, hget⟩ := List.getElem?_eq_some_iff.1
      (DeviceState.getElem?_draws (fun _ => none) front hd back)
    have hn' : front.countP (·.isDraw) < (drawnCalls cs).length := by rwa [h.length_eq]
    have hsees : SeesShader (drawnCalls cs)[front.countP (·.isDraw)] _ := h.get hn' hn
    rw [List.get_eq_getElem, hget] at hsees
    refine ⟨(drawnCalls cs)[front.countP (·.isDraw)].1, (drawnCalls cs)[front.countP (·.isDraw)].2,
      List.getElem?_eq_getElem hn', (mem_drawnCalls.1 (List.getElem_mem hn')).2, hsees.1,
      Command.lastShader_of_lastFor? ?_⟩
    rw [← hsees.2]
    show _ = (DeviceState.run _ front) .shader
    rw [DeviceState.run_eq, Option.or_none]

end Submission

/-! ## Counted layers -/

/-- The commands of the clustered lights draw nothing and set no shader. -/
def Layer.QuietCluster (l : Layer) : Prop :=
  ∀ c ∈ l.cluster.getD [], c.isDraw = false ∧ c.isShader = false

/-- What a layer adds to the counters. -/
def RenderedLayer.tally (x : RenderedLayer) : RenderStats :=
  { skippedDraws := x.prepared.skipped } + Submission.tally x.prepared.calls

/-- Counters that account for layers. -/
structure RenderStats.Accounts (stats : RenderStats) (layers : List (Layer × RenderedLayer)) :
    Prop where
  instances : stats.draws + stats.skippedDraws = (layers.flatMap (·.1.instances)).length
  draws : stats.draws = (layers.flatMap (·.2.commands)).countP (·.isDraw)
  instancedDraws : stats.instancedDraws =
    (layers.flatMap fun x => Submission.drawnCalls x.2.prepared.calls).countP
      (·.1.object.instancing.isSome)
  materialSwitches : stats.materialSwitches = (layers.flatMap (·.2.commands)).countP (·.isShader)
  switches_le : stats.materialSwitches ≤ stats.draws
  bound : ∀ x ∈ layers, Submission.BoundDraws x.2.prepared.calls x.2.commands

namespace RenderStats.Accounts

theorem nil : Accounts {} [] :=
  ⟨rfl, rfl, rfl, rfl, Nat.le_refl 0, fun _ h => absurd h List.not_mem_nil⟩

theorem append {a b : RenderStats} {xs ys : List (Layer × RenderedLayer)} (ha : a.Accounts xs)
    (hb : b.Accounts ys) : (a + b).Accounts (xs ++ ys) where
  instances := by
    rw [List.flatMap_append, List.length_append, ← ha.instances, ← hb.instances]
    exact Nat.add_add_add_comm _ _ _ _
  draws := by
    rw [List.flatMap_append, List.countP_append, ← ha.draws, ← hb.draws]
    rfl
  instancedDraws := by
    rw [List.flatMap_append, List.countP_append, ← ha.instancedDraws, ← hb.instancedDraws]
    rfl
  materialSwitches := by
    rw [List.flatMap_append, List.countP_append, ← ha.materialSwitches, ← hb.materialSwitches]
    rfl
  switches_le := Nat.add_le_add ha.switches_le hb.switches_le
  bound := fun x hx => (List.mem_append.1 hx).elim (ha.bound x) (hb.bound x)

end RenderStats.Accounts

namespace Renderer

open Submission

section Layers

variable (r : Renderer) (l : Layer)

theorem stats_drawLayer : (r.drawLayer l).renderer.stats = r.stats + (r.drawLayer l).tally := by
  rw [RenderedLayer.tally, ← RenderStats.add_assoc]
  exact stats_calls (r.submission l) (r.start l) (r.drawLayer l).prepared.calls

theorem length_instances_drawLayer :
    (r.drawLayer l).prepared.calls.length + (r.drawLayer l).prepared.skipped =
      l.instances.length :=
  r.environment.length_calls_prepare l.materials _ l.pass r.cache l.instances

variable {l}

theorem quiet_clusterCommands (h : l.QuietCluster) :
    ∀ c ∈ r.clusterCommands l, c.isDraw = false ∧ c.isShader = false := fun c hc => by
  unfold clusterCommands at hc
  split_ifs at hc
  · exact h c hc
  · cases hc

theorem forall₂_seesShader_drawLayer (h : l.QuietCluster) :
    List.Forall₂ SeesShader (drawnCalls (r.drawLayer l).prepared.calls)
      (DeviceState.draws (fun _ => none) (r.drawLayer l).commands) := by
  rw [commands_drawLayer, DeviceState.draws_append,
    DeviceState.draws_eq_nil fun c hc => (r.quiet_clusterCommands h c hc).1, List.nil_append]
  exact forall₂_seesShader_calls (r.linked_drawLayer l) (fun _ hd => nomatch hd) (r.start l)

/-- The cluster adds neither draws nor shaders to those of the calls. -/
theorem countP_commands_drawLayer (h : l.QuietCluster) :
    (r.drawLayer l).commands.countP (·.isDraw) = (tally (r.drawLayer l).prepared.calls).draws ∧
      (r.drawLayer l).commands.countP (·.isShader) =
        (tally (r.drawLayer l).prepared.calls).materialSwitches := by
  have hdraws := Command.countP_eq_zero fun c hc => (r.quiet_clusterCommands h c hc).1
  have hshaders := Command.countP_eq_zero fun c hc => (r.quiet_clusterCommands h c hc).2
  obtain ⟨hsubmitted, hsubmitted'⟩ :=
    countP_commands_calls (r.submission l) (r.start l) (r.drawLayer l).prepared.calls
  rw [commands_drawLayer, List.countP_append, List.countP_append, hdraws, hshaders, Nat.zero_add,
    Nat.zero_add]
  exact ⟨hsubmitted, hsubmitted'⟩

theorem accounts_drawLayer (h : l.QuietCluster) :
    (r.drawLayer l).tally.Accounts [(l, r.drawLayer l)] := by
  obtain ⟨hdraws, hshaders⟩ := r.countP_commands_drawLayer h
  have htotal := tally_total (r.drawLayer l).prepared.calls
  have hinstances := r.length_instances_drawLayer l
  constructor
  case instances =>
    rw [List.flatMap_singleton]
    show 0 + (Submission.tally _).draws +
      ((r.drawLayer l).prepared.skipped + (Submission.tally _).skippedDraws) = l.instances.length
    omega
  case draws =>
    rw [List.flatMap_singleton, hdraws]
    exact Nat.zero_add _
  case instancedDraws =>
    rw [List.flatMap_singleton]
    exact Nat.zero_add _
  case materialSwitches =>
    rw [List.flatMap_singleton, hshaders]
    exact Nat.zero_add _
  case switches_le =>
    exact Nat.add_le_add_left List.countP_le_length 0
  case bound =>
    intro x hx
    rw [List.mem_singleton.1 hx]
    exact boundDraws_of_seesShader (r.forall₂_seesShader_drawLayer h)

end Layers

/-- A renderer, and the layers it has drawn since its counters were reset. -/
structure Recording where
  renderer : Renderer
  layers : List (Layer × RenderedLayer)

namespace Recording

/-- A recording of a renderer that has just been reset. -/
def start (r : Renderer) : Recording :=
  ⟨r.resetStats, []⟩

/-- The recording behind an event.  A layer is kept until the counters are reset. -/
def step (x : Recording) (e : Event) : Recording where
  renderer := x.renderer.step e
  layers :=
    match e with
    | .draw l => x.layers ++ [(l, x.renderer.drawLayer l)]
    | .share _ _ => x.layers
    | .resetStats => []

/-- The recording behind events. -/
def after (x : Recording) (es : List Event) : Recording :=
  es.foldl step x

theorem renderer_after (x : Recording) (es : List Event) :
    (x.after es).renderer = x.renderer.after es := by
  induction es generalizing x with
  | nil => rfl
  | cons e es ih => exact ih (x.step e)

theorem accounts_step {x : Recording} (h : x.renderer.stats.Accounts x.layers) {e : Event}
    (he : ∀ l, e = .draw l → l.QuietCluster) :
    (x.step e).renderer.stats.Accounts (x.step e).layers := by
  cases e with
  | draw l =>
    show (x.renderer.drawLayer l).renderer.stats.Accounts _
    rw [stats_drawLayer]
    exact h.append (x.renderer.accounts_drawLayer (he l rfl))
  | share p split => exact h
  | resetStats => exact .nil

theorem accounts_after {x : Recording} (h : x.renderer.stats.Accounts x.layers) {es : List Event}
    (hes : ∀ l, .draw l ∈ es → l.QuietCluster) :
    (x.after es).renderer.stats.Accounts (x.after es).layers := by
  induction es generalizing x with
  | nil => exact h
  | cons e es ih =>
    refine ih (accounts_step h fun l hl => ?_) fun l hl => hes l (List.mem_cons_of_mem e hl)
    exact hes l (hl ▸ List.mem_cons_self)

end Recording

/-- The counters of a renderer account for the layers it has drawn since they were reset, whatever it
has drawn before and whoever else uses its programs. -/
theorem accounts_record (r : Renderer) (es : List Event)
    (h : ∀ l, .draw l ∈ es → l.QuietCluster) :
    (r.resetStats.after es).stats.Accounts ((Recording.start r).after es).layers := by
  have haccounts := Recording.accounts_after (x := Recording.start r) .nil h
  rwa [Recording.renderer_after] at haccounts

end Renderer

/-- Two draws of one material, of which the second is instanced, an instance of a material that
declares two uniforms at once, and an instanced draw of nothing, over clustered lights. -/
def Layer.counted : Layer :=
  { interrupted with
    instances :=
      [{ material := ⟨0⟩, mesh := { vertexBuffer := ⟨1⟩ } },
        { material := ⟨0⟩, mesh := { vertexBuffer := ⟨1⟩ }, instancing := some ⟨⟨2⟩, 3⟩ },
        { material := ⟨1⟩, mesh := { vertexBuffer := ⟨1⟩ } },
        { material := ⟨0⟩, mesh := { vertexBuffer := ⟨1⟩ }, instancing := some ⟨⟨2⟩, 0⟩ }]
    cluster := some [.uniform "clusterMaxCells" (.int 64)] }

theorem Layer.quietCluster_counted : counted.QuietCluster := by
  intro c hc
  rw [List.mem_singleton.1 hc]
  exact ⟨rfl, rfl⟩

theorem Renderer.accounts_record_counted :
    let r := ofConfig { clusteredLighting := true } 16 (.empty .explicitBinding) (.empty .view)
    let es := [Event.draw .counted, .resetStats, .draw .counted, .draw .counted]
    (∀ l, .draw l ∈ es → l.QuietCluster) ∧
      (r.resetStats.after es).stats = ⟨4, 2, 2, 4⟩ ∧
      (r.resetStats.after es).stats.Accounts ((Recording.start r).after es).layers := by
  intro r es
  have hquiet : ∀ l, .draw l ∈ es → l.QuietCluster := by
    intro l hl
    have hl : l = .counted := by simpa [es] using hl
    rw [hl]
    exact Layer.quietCluster_counted
  exact ⟨hquiet, by decide +kernel, accounts_record r es hquiet⟩

end ForwardShading
