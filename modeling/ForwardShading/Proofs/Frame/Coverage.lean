import ForwardShading.Proofs.Frame.Blocks

/-!
# What forward passes draw

Taken together, the forward passes of a frame draw every action once and in order, except those with
passes of their camera and captures.  Each draws a run of neighbours into one target
(`Inputs.passes_draw_once`).
-/

namespace ForwardShading.Frame

namespace Inputs

variable {inputs : Inputs} {target : Option TargetHandle} {places : List Nat} {clear : ClearFlags}

/-- Neighbouring actions that draw into one target, which is cleared as the first of them asks. -/
structure IsRun (inputs : Inputs) (target : Option TargetHandle) (places : List Nat)
    (clear : ClearFlags) : Prop where
  nonempty : places ≠ []
  consecutive : ∃ start, places = List.range' start places.length
  into : ∀ i ∈ places, ∃ a, inputs.actions[i]? = some a ∧ a.target = target
  cleared : ∃ a, places.head?.bind (inputs.actions[·]?) = some a ∧ a.flags.clear = clear

/-- A forward pass draws a block as a whole. -/
theorem exists_block_of_forward (h : .forward target places clear ∈ inputs.passes) :
    ∃ x rest, x :: rest ∈ inputs.blocks ∧ target = x.1.target ∧
      places = (x :: rest).map (·.2) ∧ clear = x.1.flags.clear := by
  rcases List.mem_append.1 h with h | h
  · cases role_of_mem_prologue h
  · obtain ⟨block, hblock, h⟩ := List.mem_flatMap.1 h
    have hscheduled := scheduled_blockPasses hblock
    generalize inputs.blockPasses block = ps at hscheduled h
    cases hscheduled with
    | @drawn x y rest all last =>
      rcases List.mem_append.1 h with h | h
      · cases role_of_mem_shadowPasses h
      · rcases List.mem_cons.1 h with h | h
        · cases h
          exact ⟨x, rest, hblock, rfl, rfl, rfl⟩
        · cases role_of_mem_postPasses h
    | captured capture =>
      rcases List.mem_append.1 h with h | h
      · cases role_of_mem_grabPasses h
      · cases role_of_mem_postPasses h
    | supplied passes => cases role_of_mem_externals h

theorem isRun_of_mem_passes (h : .forward target places clear ∈ inputs.passes) :
    inputs.IsRun target places clear := by
  obtain ⟨x, rest, hblock, rfl, rfl, rfl⟩ := exists_block_of_forward h
  have hget : ∀ y ∈ x :: rest, inputs.actions[y.2]? = some y.1 := fun y hy =>
    getElem?_of_mem_block hblock hy
  refine ⟨List.cons_ne_nil _ _, ⟨x.2, ?_⟩, fun i hi => ?_, x.1, hget x List.mem_cons_self, rfl⟩
  · rw [places_block hblock, List.length_range']
  · obtain ⟨y, hy, rfl⟩ := List.mem_map.1 hi
    exact ⟨y.1, hget y hy, target_of_mem_block hblock hy⟩

theorem mem_places_passes {i : Nat} :
    i ∈ inputs.passes.flatMap Pass.places ↔ ∃ a, inputs.actions[i]? = some a ∧ a.isDrawn := by
  rw [places_passes, List.mem_map]
  constructor
  · rintro ⟨x, hx, rfl⟩
    obtain ⟨hmem, hdrawn⟩ := List.mem_filter.1 hx
    exact ⟨x.1, List.mem_zipIdx_iff_getElem?.1 hmem, hdrawn⟩
  · rintro ⟨a, ha, hdrawn⟩
    exact ⟨(a, i), List.mem_filter.2 ⟨List.mk_mem_zipIdx_iff_getElem?.2 ha, hdrawn⟩, rfl⟩

theorem pairwise_places_passes (inputs : Inputs) :
    (inputs.passes.flatMap Pass.places).Pairwise (· < ·) := by
  have hsorted : (inputs.actions.zipIdx.map (·.2)).Pairwise (· < ·) := by
    rw [List.zipIdx_map_snd]
    exact List.pairwise_lt_range' 1
  rw [places_passes]
  exact hsorted.sublist (List.filter_sublist.map _)

/-- The forward passes draw every action once, in ascending order, but for those with passes of their
camera and captures.  Each of them draws a run of neighbours. -/
theorem passes_draw_once (inputs : Inputs) :
    (inputs.passes.flatMap Pass.places).Pairwise (· < ·) ∧
      (∀ i, i ∈ inputs.passes.flatMap Pass.places ↔
        ∃ a, inputs.actions[i]? = some a ∧ a.usesCameraPasses = false ∧ a.isCapture = false) ∧
      ∀ target places clear, .forward target places clear ∈ inputs.passes →
        inputs.IsRun target places clear := by
  refine ⟨inputs.pairwise_places_passes, fun i => ?_, fun _ _ _ h => isRun_of_mem_passes h⟩
  simp only [mem_places_passes, Action.isDrawn_iff]

/-- A camera that draws, keeps the color of what it has drawn and draws on, with another camera's own
passes in between. -/
def interrupted : Inputs where
  actions :=
    [{ camera := { colorMap := true }, target := none, flags := { clear := { color := true } } },
      { camera := { colorMap := true }, target := none },
      { camera := { colorMap := true }, target := none, flags := { captureColor := true } },
      { camera := { id := 1 }, target := none, passes := some ["gbuffer"] },
      { camera := { colorMap := true }, target := none }]

theorem passes_draw_once_interrupted :
    interrupted.passes.flatMap Pass.places = [0, 1, 4] ∧
      .forward none [0, 1] { color := true } ∈ interrupted.passes ∧
      interrupted.IsRun none [0, 1] { color := true } := by
  have hmem : .forward none [0, 1] { color := true } ∈ interrupted.passes := by decide
  exact ⟨by decide, hmem, (interrupted.passes_draw_once).2.2 _ _ _ hmem⟩

end Inputs

end ForwardShading.Frame
