import ForwardShading.Proofs.Frame.Coverage
import ForwardShading.Proofs.Frame.Cuts

/-!
# What becomes of captures

A capture is not drawn.  It has a pass for each part, color or depth, that it asks for and that its
camera keeps (`Inputs.keptAt_iff`).  An action counts as a capture already if it asks for any part
and its camera keeps any, so where these differ it is neither drawn nor kept
(`Inputs.drawn_or_keptAt_iff`, `Inputs.not_drawn_or_keptAt_mismatched`).
-/

namespace ForwardShading.Frame

/-- Whether the camera keeps a part that the action asks for. -/
def Action.isServed (a : Action) : Bool :=
  a.flags.captureColor && a.camera.colorMap || a.flags.captureDepth && a.camera.depthMap

namespace Inputs

variable {inputs : Inputs} {a : Action} {i : Nat}

/-- Whether a pass keeps what has been drawn for an action, behind all passes of the actions before
it and in front of all those of the actions behind it. -/
def KeptAt (inputs : Inputs) (i : Nat) (a : Action) : Prop :=
  ∃ own, inputs.actionPasses =
      (inputs.withActions (inputs.actions.take i)).actionPasses ++ own ++
        (inputs.withActions (inputs.actions.drop (i + 1))).actionPasses.map (Pass.shift (i + 1)) ∧
    (.colorGrab a.camera.id a.target ∈ own ∨ .depthGrab a.camera.id a.target ∈ own)

theorem mem_grabPasses_iff (ha : a.isCapture) :
    (.colorGrab a.camera.id a.target ∈ grabPasses a ∨
      .depthGrab a.camera.id a.target ∈ grabPasses a) ↔ a.isServed := by
  simp only [grabPasses, if_pos ha, List.mem_append, List.mem_ite_nil_right, List.mem_singleton,
    Action.isServed, Bool.or_eq_true, reduceCtorEq, and_false, or_false, false_or, and_true]

theorem blockPasses_of_isCapture (ha : a.isCapture) :
    inputs.blockPasses [(a, i)] = grabPasses a ++ postPasses a := by
  have hpasses : a.passes = none := by
    simpa [Action.usesCameraPasses] using Action.usesCameraPasses_of_isCapture ha
  simp [blockPasses, hpasses, drawPasses, ha]

theorem keptAt_iff (h : inputs.actions[i]? = some a) (ha : a.isCapture) :
    inputs.KeptAt i a ↔ a.isServed := by
  have hpasses := actionPasses_eq_of_not_isDrawn h (Action.not_isDrawn_of_isCapture ha)
  rw [blockPasses_of_isCapture ha] at hpasses
  rw [← mem_grabPasses_iff ha]
  constructor
  · rintro ⟨own, hown, hmem⟩
    -- What is in front and what is behind leave no choice for what is in between.
    obtain rfl : grabPasses a ++ postPasses a = own :=
      List.append_cancel_left (List.append_cancel_right (hpasses.symm.trans hown))
    refine hmem.imp (fun hmem => ?_) fun hmem => ?_
    all_goals
      apply (List.mem_append.1 hmem).resolve_right
      intro hpost
      cases role_of_mem_postPasses hpost
  · intro hmem
    exact ⟨_, hpasses, hmem.imp (List.mem_append_left _) (List.mem_append_left _)⟩

/-- An action without passes of its own is drawn or kept exactly if, being a capture, it asks for a
part that its camera keeps. -/
theorem drawn_or_keptAt_iff (h : inputs.actions[i]? = some a)
    (huses : a.usesCameraPasses = false) :
    (i ∈ inputs.passes.flatMap Pass.places ∨ inputs.KeptAt i a) ↔ (a.isCapture → a.isServed) := by
  by_cases hcapture : a.isCapture
  · have hplaces : i ∉ inputs.passes.flatMap Pass.places := by
      intro hi
      obtain ⟨b, hb, hdrawn⟩ := mem_places_passes.1 hi
      obtain rfl : a = b := Option.some.inj (h.symm.trans hb)
      exact Action.not_isDrawn_of_isCapture hcapture hdrawn
    simp only [hplaces, false_or, hcapture, true_imp_iff]
    exact keptAt_iff h hcapture
  · refine iff_of_true (.inl ?_) fun ha => absurd ha hcapture
    exact mem_places_passes.2 ⟨a, h, Action.isDrawn_iff.2 ⟨huses, by simpa using hcapture⟩⟩

/-- A camera that keeps its depth has two captures: of color and depth, and of color alone. -/
def mismatched : Inputs where
  actions :=
    [{ camera := { depthMap := true }, target := none,
        flags := { captureColor := true, captureDepth := true } },
      { camera := { depthMap := true }, target := none, flags := { captureColor := true } }]

/-- The depth of the first is kept. -/
theorem drawn_or_keptAt_iff_mismatched :
    ∃ a, mismatched.actions[0]? = some a ∧ a.usesCameraPasses = false ∧ a.isCapture ∧
      (0 ∈ mismatched.passes.flatMap Pass.places ∨ mismatched.KeptAt 0 a) := by
  have ha : mismatched.actions[0]? = some mismatched.actions[0] := rfl
  exact ⟨_, ha, rfl, by decide, (drawn_or_keptAt_iff ha rfl).2 fun _ => by decide⟩

/-- The second has no pass at all. -/
theorem not_drawn_or_keptAt_mismatched :
    ∃ a, mismatched.actions[1]? = some a ∧ a.usesCameraPasses = false ∧
      mismatched.passes = [.depthGrab 0 none] ∧
      ¬ (1 ∈ mismatched.passes.flatMap Pass.places ∨ mismatched.KeptAt 1 a) := by
  refine ⟨mismatched.actions[1], rfl, rfl, by decide, ?_⟩
  rintro (hplaces | hkept)
  · revert hplaces
    decide
  · revert hkept
    rw [keptAt_iff rfl (by decide)]
    decide

end Inputs

end ForwardShading.Frame
