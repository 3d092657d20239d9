import ForwardShading.Proofs.Draw.Batching
import ForwardShading.Proofs.Draw.LightCounts

/-!
# Instances that are skipped

Instances whose program cannot be built are skipped, and so are instanced draws of nothing.  A skipped
instance can stand between two that share a material or a mask, and it can be the one that brings
the change of either.  No draw sees it: with every call setting all of its state, the commands are
those of the instances that can be drawn (`Submission.commands_calls_alone`), and batching shows the
same at every draw.  So a layer without its skipped instances is drawn alike
(`Renderer.draws_withoutSkipped`).
-/

namespace ForwardShading

namespace Submission

variable {s : Submission} {progress : Progress} {d : Dispatcher}

/-- Calls that set all of their state issue nothing but what those with a program set and draw. -/
theorem commands_calls_alone (hd : progress.dispatcher.setup = d.setup) (cs : List DrawCall) :
    (s.calls progress (cs.map DrawCall.alone)).2 =
      (drawnCalls cs).flatMap fun (c, p) => s.fullCommands d c p ++ [c.object.drawCommand] := by
  induction cs generalizing progress with
  | nil => rfl
  | cons c cs ih =>
    have hsetup : (s.call progress c.alone false).1.dispatcher.setup = d.setup := setup_call.trans hd
    rw [List.map_cons, calls_cons, shares_alone, ih hsetup]
    cases hp : c.variant.program with
    | error e =>
      have hp' : c.alone.variant.program = .error e := hp
      rw [commands_call_of_error hp', drawnCalls_cons_of_error hp, List.nil_append]
    | ok p =>
      have hp' : c.alone.variant.program = .ok p := hp
      have hset : s.setCommands progress c.alone p = s.fullCommands d c p := by
        rw [setCommands_alone, fullCommands, fullCommands, lightCommands_congr hd]
      rw [commands_call_of_ok hp', drawnCalls_cons_of_ok hp, List.flatMap_cons, hset]
      simp only [restoreCommands, Bool.false_eq_true, if_false, List.append_nil]
      rfl

theorem drawnCalls_map_alone (cs : List DrawCall) :
    drawnCalls (cs.map DrawCall.alone) = (drawnCalls cs).map fun (c, p) => (c.alone, p) := by
  rw [drawnCalls, drawnCalls, List.filterMap_map, List.map_filterMap]
  refine List.filterMap_congr fun c _ => ?_
  show c.variant.program.toOption.map (c.alone, ·) = _
  rw [Option.map_map]
  rfl

/-- At each draw of calls that set all of their state, the lights are as dispatched for its mask. -/
theorem forall₂_lit_calls_alone {cs : List DrawCall} (hd : progress.dispatcher.setup = d.setup)
    (hu : ∀ c ∈ cs, c.object.parameters.Unreserved) (δ : DeviceState) :
    List.Forall₂ (fun c x => x.2 = c.1.object.drawCommand ∧
        x.1.run (s.lightCommands d c.1.object.mask) = x.1)
      (drawnCalls cs) (δ.draws (s.calls progress (cs.map DrawCall.alone)).2) := by
  have hdraws : List.Forall₂ (fun c x => x.2 = c.1.object.drawCommand ∧
      x.1.run (s.lightCommands d c.1.object.mask) = x.1) (drawnCalls (cs.map DrawCall.alone))
      (δ.draws (s.calls progress (cs.map DrawCall.alone)).2) :=
    s.forall₂_draws_calls (fun c hc p _ progress' σ hd' => ?_) hd δ
  · rw [drawnCalls_map_alone, List.forall₂_map_left_iff] at hdraws
    exact hdraws
  · obtain ⟨c', hc', rfl⟩ := List.mem_map.1 hc
    refine ⟨rfl, ?_⟩
    rw [setCommands_alone, ← lightCommands_congr hd']
    exact run_lightCommands_drawn (hu c' hc')

end Submission

namespace Renderer

variable (r : Renderer) (l : Layer)

/-- What building the program of an instance gives. -/
def programFor (i : Instance) : Except ShaderError Program :=
  Program.build r.cache.dialect (r.environment.describe l.materials (lights l) l.pass i).1
    (r.environment.describe l.materials (lights l) l.pass i).2

/-- Whether an instance has something to draw, and a program to draw it with. -/
def canDraw (i : Instance) : Bool :=
  !i.isEmpty && (r.programFor l i).toOption.isSome

/-- The layer without the instances that are skipped. -/
def withoutSkipped : Layer :=
  { l with instances := l.instances.filter (r.canDraw l) }

variable {r l}

/-- The calls with a program are those of the instances that can be drawn, in their order. -/
theorem Coherent.map_drawnCalls (h : r.Coherent) :
    (Submission.drawnCalls (r.drawLayer l).prepared.calls).map (fun x => (x.1.object, x.2)) =
      (l.instances.filter (r.canDraw l)).filterMap fun i =>
        (r.programFor l i).toOption.map (i, ·) := by
  have hanswers := Preparation.answers_run SortedLights.allToldApart_byKind
    (r.byKind_preparation l) h.built
  have hprogram : ∀ c ∈ (r.drawLayer l).prepared.calls,
      c.variant.program = r.programFor l c.object := hanswers.program
  have hobjects : (r.drawLayer l).prepared.calls.map (·.object) =
      l.instances.filter (!·.isEmpty) := hanswers.objects
  calc (Submission.drawnCalls (r.drawLayer l).prepared.calls).map (fun x => (x.1.object, x.2))
      = (r.drawLayer l).prepared.calls.filterMap fun c =>
          (r.programFor l c.object).toOption.map (c.object, ·) := by
        rw [Submission.drawnCalls, List.map_filterMap]
        refine List.filterMap_congr fun c hc => ?_
        rw [hprogram c hc, Option.map_map]
        rfl
    _ = (l.instances.filter (!·.isEmpty)).filterMap fun i =>
          (r.programFor l i).toOption.map (i, ·) := by
        rw [← hobjects, List.filterMap_map]
        rfl
    _ = (l.instances.filter (r.canDraw l)).filterMap fun i =>
          (r.programFor l i).toOption.map (i, ·) := by
        rw [List.filterMap_filter, List.filterMap_filter]
        refine List.filterMap_congr fun i _ => ?_
        rw [canDraw]
        cases i.isEmpty <;> cases (r.programFor l i).toOption <;> rfl

/-- Where every call sets all of its state, a layer is drawn by the instances that can be drawn. -/
theorem Coherent.plainCommands_eq (h : r.Coherent) : r.plainCommands l =
    r.clusterCommands l ++ ((l.instances.filter (r.canDraw l)).filterMap fun i =>
      (r.programFor l i).toOption.map (i, ·)).flatMap fun (i, p) =>
        let m := l.materials i.material
        m.bindCommands p ++ (r.submission l).lightCommands r.dispatcher i.mask ++ m.stateCommands ++
          (r.submission l).instanceCommands m i p ++ [i.drawCommand] := by
  rw [plainCommands, Submission.commands_calls_alone (d := r.dispatcher) rfl, ← h.map_drawnCalls,
    List.flatMap_map]
  rfl

theorem withoutSkipped_unreserved (h : l.Unreserved) : (r.withoutSkipped l).Unreserved :=
  fun i hi => h i (List.mem_of_mem_filter hi)

/-- A layer without the instances that are skipped is drawn alike, and at every draw the lights are
those that were last dispatched for the mask of its instance. -/
theorem draws_withoutSkipped (hr : r.Reachable) (h : l.Unreserved) (δ : DeviceState) :
    δ.draws (r.drawLayer (r.withoutSkipped l)).commands = δ.draws (r.drawLayer l).commands ∧
      List.Forall₂ (fun c x => (r.submission l).LitFor r.dispatcher.setup c.1.object.mask x)
        (Submission.drawnCalls (r.drawLayer l).prepared.calls) (r.dispatches l) ∧
      List.Forall₂ (fun c x => x.2 = c.1.object.drawCommand ∧
          x.1.run ((r.submission l).lightCommands r.dispatcher c.1.object.mask) = x.1)
        (Submission.drawnCalls (r.drawLayer l).prepared.calls)
        ((δ.run (r.clusterCommands l)).draws (r.submitted l)) := by
  have hc : r.Coherent := hr.coherent
  refine ⟨?_, r.forall₂_litFor l, ?_⟩
  · have hinstances : (r.withoutSkipped l).instances.filter (r.canDraw (r.withoutSkipped l)) =
        l.instances.filter (r.canDraw l) := by
      show (l.instances.filter (r.canDraw l)).filter (r.canDraw l) = _
      rw [List.filter_filter]
      simp only [Bool.and_self]
    have hplain : r.plainCommands (r.withoutSkipped l) = r.plainCommands l := by
      rw [hc.plainCommands_eq, hc.plainCommands_eq, hinstances]
      rfl
    rw [r.draws_drawLayer (withoutSkipped_unreserved h), r.draws_drawLayer h, hplain]
  · rw [r.draws_submitted h]
    have hsetup : (r.start l).dispatcher.setup = r.dispatcher.setup := rfl
    exact Submission.forall₂_lit_calls_alone hsetup
      (fun c hc => (h c.object (r.object_mem_instances l hc)).1) _

end Renderer

/-- Two draws of a tinted material with different masks.  Between them stand an instance of a material
that declares two uniforms at once, and an instanced draw of nothing. -/
def Layer.interrupted : Layer where
  camera := {}
  instances :=
    [{ material := ⟨0⟩, mesh := { vertexBuffer := ⟨1⟩ }, parameters := .ofList [("tint", red)] },
      { material := ⟨1⟩, mesh := { vertexBuffer := ⟨1⟩ }, mask := 2 },
      { material := ⟨0⟩, mesh := { vertexBuffer := ⟨1⟩ }, mask := 4,
        instancing := some ⟨⟨2⟩, 0⟩ },
      { material := ⟨0⟩, mesh := { vertexBuffer := ⟨1⟩ }, mask := 2 }]
  materials h :=
    if h.index = 0 then
      tintedMaterial
    else
      { definition := ⟨"broken", "uniform float a, b;\n", "", .empty⟩ }
  lights := [{ kind := .omni, mask := 2 }]

theorem Layer.unreserved_interrupted : Layer.interrupted.Unreserved := by
  have hmaterial : ∀ h, (Layer.interrupted.materials h).parameters.Unreserved := by
    intro h
    by_cases h0 : h.index = 0
    · simp only [interrupted, h0, if_true]
      exact not_isReserved_tint
    · simp only [interrupted, h0, if_false]
      exact fun name hname => absurd hname List.not_mem_nil
  intro i hi
  refine ⟨?_, hmaterial i.material⟩
  simp only [interrupted, List.mem_cons, List.not_mem_nil, or_false] at hi
  rcases hi with rfl | rfl | rfl | rfl
  · exact not_isReserved_tint
  all_goals exact fun name hname => absurd hname List.not_mem_nil

theorem Renderer.draws_withoutSkipped_interrupted :
    initial.Reachable ∧ Layer.interrupted.Unreserved ∧
      (initial.withoutSkipped .interrupted).instances.map (·.mask) = [1, 2] ∧
      DeviceState.draws (fun _ => none)
          (initial.drawLayer (initial.withoutSkipped .interrupted)).commands =
        DeviceState.draws (fun _ => none) (initial.drawLayer .interrupted).commands :=
  ⟨reachable_initial, Layer.unreserved_interrupted, by decide +kernel,
    (draws_withoutSkipped reachable_initial Layer.unreserved_interrupted _).1⟩

end ForwardShading
