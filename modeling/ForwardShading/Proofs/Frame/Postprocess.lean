import ForwardShading.Proofs.Frame.Blocks

/-!
# When post-processing runs

A block asks for the post-processing of its last action only.  So a request is served, behind the
passes that draw or keep its action and in front of those that draw later ones, exactly where the
schedule breaks behind the action (`Inputs.postprocessed_iff_breaksAfter`); a request in the midst of
a block is lost (`Inputs.not_postprocessedAt_requestedTwice`).
-/

namespace ForwardShading.Frame

/-- Whether an action is followed by the post-processing of its camera. -/
def Action.requestsPostprocess (a : Action) : Bool :=
  !a.usesCameraPasses && a.flags.triggerPostprocess && a.camera.postprocessing

namespace Inputs

variable {inputs : Inputs} {a : Action} {i : Nat} {block front back : List (Action × Nat)}
  {before after : List (List (Action × Nat))}

/-- Whether the post-processing of an action runs in time: behind the passes that draw or keep the
action, and in front of those that draw later ones. -/
def PostprocessedAt (inputs : Inputs) (i : Nat) (a : Action) : Prop :=
  ∃ before after, inputs.passes = before ++ .postProcess a.camera.id :: after ∧
    (a.isDrawn → i ∈ before.flatMap Pass.places) ∧ grabPasses a <:+ before ∧
    (∀ k ∈ before.flatMap Pass.places, k ≤ i) ∧ ∀ k ∈ after.flatMap Pass.places, i < k

/-- Whether an action asks for post-processing and is the last of its block. -/
def servesPostprocess (inputs : Inputs) (x : Action × Nat) : Bool :=
  x.1.requestsPostprocess && inputs.breaksAfter x.1 x.1.target inputs.actions[x.2 + 1]?

theorem not_usesCameraPasses_of_requestsPostprocess (ha : a.requestsPostprocess) :
    a.usesCameraPasses = false := by
  simp only [Action.requestsPostprocess, Bool.and_eq_true, Bool.not_eq_true'] at ha
  exact ha.1.1

theorem postPasses_eq (ha : a.usesCameraPasses = false) :
    postPasses a = if a.requestsPostprocess then [.postProcess a.camera.id] else [] := by
  simp [postPasses, Action.requestsPostprocess, ha]

theorem servesPostprocess_iff (h : inputs.blocks = before ++ (front ++ (a, i) :: back) :: after) :
    inputs.servesPostprocess (a, i) ↔ a.requestsPostprocess ∧ back = [] := by
  rw [servesPostprocess, Bool.and_eq_true]
  exact and_congr_right fun ha =>
    (eq_nil_iff_breaksAfter h (not_usesCameraPasses_of_requestsPostprocess ha)).symm

/-- The passes of a block end with what its last action asks for. -/
theorem exists_blockPasses_eq (h : front ++ [(a, i)] ∈ inputs.blocks) :
    ∃ ps, (∀ p ∈ ps, p.role ≠ .post) ∧ grabPasses a <:+ ps ∧
      inputs.blockPasses (front ++ [(a, i)]) =
        ps ++ if a.requestsPostprocess then [.postProcess a.camera.id] else [] := by
  have hscheduled := scheduled_blockPasses h
  generalize inputs.blockPasses (front ++ [(a, i)]) = qs at hscheduled
  generalize hblock : front ++ [(a, i)] = block at hscheduled
  cases hscheduled with
  | @drawn x y rest all last =>
    rw [← hblock, List.getLast?_concat] at last
    cases last
    have hdrawn : a.isDrawn := all (a, i) (by rw [← hblock]; simp)
    obtain ⟨huses, hcapture⟩ := Action.isDrawn_iff.1 hdrawn
    refine ⟨inputs.shadowPasses x.1 ++ [.forward x.1.target ((x :: rest).map (·.2)) x.1.flags.clear],
      fun p hp => ?_, ?_, ?_⟩
    · rcases List.mem_append.1 hp with hp | hp
      · simp [role_of_mem_shadowPasses hp]
      · simp [List.mem_singleton.1 hp, Pass.role]
    · simp [grabPasses, hcapture]
    · rw [postPasses_eq huses, List.append_assoc, List.singleton_append]
  | @captured x capture =>
    obtain ⟨-, hx⟩ := (List.append_eq_singleton_iff.1 hblock).resolve_right (by simp)
    cases hx
    exact ⟨grabPasses a, fun p hp => by simp [role_of_mem_grabPasses hp], List.suffix_refl _,
      by rw [postPasses_eq (Action.usesCameraPasses_of_isCapture capture)]⟩
  | @supplied x names passes =>
    obtain ⟨-, hx⟩ := (List.append_eq_singleton_iff.1 hblock).resolve_right (by simp)
    cases hx
    have huses : a.usesCameraPasses := by
      have hpasses : a.passes = some names := passes
      simp [Action.usesCameraPasses, hpasses]
    exact ⟨names.map (.external a.camera.id), fun p hp => by simp [role_of_mem_externals hp],
      by simp [grabPasses, Action.isCapture, huses], by simp [Action.requestsPostprocess, huses]⟩

/-! ## Requests that are served -/

theorem postprocessedAt_of_breaksAfter (h : inputs.actions[i]? = some a)
    (ha : a.requestsPostprocess) (hbreaks : inputs.breaksAfter a a.target inputs.actions[i + 1]?) :
    inputs.PostprocessedAt i a := by
  obtain ⟨before, front, back, after, hblocks⟩ := exists_blocks_eq h
  obtain rfl : back = [] :=
    (eq_nil_iff_breaksAfter hblocks (not_usesCameraPasses_of_requestsPostprocess ha)).2 hbreaks
  have hblock := mem_blocks_of_eq_append hblocks
  obtain ⟨ps, -, hgrab, hps⟩ := exists_blockPasses_eq hblock
  rw [if_pos ha] at hps
  -- The post-processing draws nothing, so what its block draws is in front of it.
  have hplaces : ps.flatMap Pass.places = ((front ++ [(a, i)]).filter (·.1.isDrawn)).map (·.2) := by
    rw [← places_blockPasses hblock, hps]
    simp [Pass.places]
  refine ⟨inputs.prologue ++ before.flatMap inputs.blockPasses ++ ps,
    after.flatMap inputs.blockPasses, ?_, fun hdrawn => ?_,
    hgrab.trans (List.suffix_append _ _), fun k hk => ?_, fun k hk => ?_⟩
  · simp only [passes, hblocks, List.flatMap_append, List.flatMap_cons, hps, List.append_assoc,
      List.singleton_append]
  · rw [List.flatMap_append, hplaces]
    refine List.mem_append_right _ (List.mem_map.2 ⟨(a, i), List.mem_filter.2 ⟨?_, hdrawn⟩, rfl⟩)
    simp
  · rw [List.flatMap_append, List.flatMap_append, places_prologue, List.nil_append, List.mem_append,
      mem_places_flatMap_blockPasses (before_subset hblocks), hplaces] at hk
    rcases hk with ⟨c, hc, -⟩ | hk
    · exact Nat.le_of_lt (lt_of_mem_before hblocks (List.mem_append_left _ hc))
    · obtain ⟨y, hy, rfl⟩ := List.mem_map.1 hk
      rcases List.mem_append.1 (List.mem_filter.1 hy).1 with hy | hy
      · exact Nat.le_of_lt (lt_of_mem_before hblocks (List.mem_append_right _ hy))
      · rw [List.mem_singleton.1 hy]
  · obtain ⟨c, hc, -⟩ := (mem_places_flatMap_blockPasses (after_subset hblocks)).1 hk
    exact lt_of_mem_after hblocks (List.mem_append_right _ hc)

/-- No post-processing divides the actions of a block. -/
theorem breaksAfter_of_postprocessedAt (h : inputs.actions[i]? = some a)
    (ha : a.requestsPostprocess) (hpost : inputs.PostprocessedAt i a) :
    inputs.breaksAfter a a.target inputs.actions[i + 1]? := by
  obtain ⟨before, front, back, after, hblocks⟩ := exists_blocks_eq h
  rw [← eq_nil_iff_breaksAfter hblocks (not_usesCameraPasses_of_requestsPostprocess ha)]
  cases back with
  | nil => rfl
  | cons y back =>
    have hblock := mem_blocks_of_eq_append hblocks
    have hjoins := (List.pairwise_append.1 (pairwise_joins hblock)).2.1
    have hdrawn : a.isDrawn :=
      (joins_iff.1 (List.rel_of_pairwise_cons hjoins List.mem_cons_self)).1
    have hlater : i < y.2 := lt_of_mem_after hblocks (List.mem_append_left _ List.mem_cons_self)
    obtain ⟨p, hp, hrole, hplaces⟩ :=
      exists_forward_of_mem_block hblock (x := (a, i)) (by simp) hdrawn
    have hi : i ∈ p.places := by simp [hplaces]
    have hy : y.2 ∈ p.places := by simp [hplaces]
    obtain ⟨front, rest, hpasses, -, -, hfront, hrest⟩ := hpost
    rw [hpasses, List.mem_append, List.mem_cons] at hp
    rcases hp with hp | rfl | hp
    · have := hfront _ (List.mem_flatMap.2 ⟨p, hp, hy⟩)
      omega
    · cases hrole
    · have := hrest _ (List.mem_flatMap.2 ⟨p, hp, hi⟩)
      omega

theorem countP_blockPasses (h : block ∈ inputs.blocks) :
    (inputs.blockPasses block).countP (·.role = .post) = block.countP inputs.servesPostprocess := by
  obtain ⟨front, ⟨a, i⟩, rfl⟩ := (List.eq_nil_or_concat block).resolve_left (ne_nil_of_mem_blocks h)
  rw [List.concat_eq_append] at h ⊢
  obtain ⟨before, after, hblocks⟩ := List.append_of_mem h
  obtain ⟨ps, hps, -, heq⟩ := exists_blockPasses_eq h
  have hnone : ps.countP (·.role = .post) = 0 := by simpa using hps
  have hfront : front.countP inputs.servesPostprocess = 0 := by
    refine List.countP_eq_zero.2 fun y hy hserves => ?_
    obtain ⟨front, rest, rfl⟩ := List.append_of_mem hy
    rw [List.append_assoc, List.cons_append] at hblocks
    exact absurd ((servesPostprocess_iff hblocks).1 hserves).2 (by simp)
  have hlast : inputs.servesPostprocess (a, i) = a.requestsPostprocess :=
    Bool.eq_iff_iff.2 ((servesPostprocess_iff hblocks).trans (and_iff_left rfl))
  rw [heq, List.countP_append, List.countP_append, hnone, hfront, List.countP_singleton, hlast]
  split <;> simp [Pass.role]

theorem countP_passes (inputs : Inputs) :
    inputs.passes.countP (·.role = .post) =
      inputs.actions.zipIdx.countP inputs.servesPostprocess := by
  have hprologue : inputs.prologue.countP (·.role = .post) = 0 :=
    List.countP_eq_zero.2 fun p hp => by simp [role_of_mem_prologue hp]
  have hblocks : inputs.blocks.map (List.countP (·.role = .post) ∘ inputs.blockPasses) =
      inputs.blocks.map (List.countP inputs.servesPostprocess) :=
    List.map_congr_left fun _ hblock => countP_blockPasses hblock
  rw [passes, List.countP_append, hprologue, Nat.zero_add, List.countP_flatMap, hblocks,
    ← List.countP_flatten, flatten_blocks]

/-- A request for post-processing is served in time exactly where the schedule breaks behind its
action, and there is no post-processing but for these requests. -/
theorem postprocessed_iff_breaksAfter (inputs : Inputs) :
    (∀ i a, inputs.actions[i]? = some a → a.requestsPostprocess →
      (inputs.PostprocessedAt i a ↔ inputs.breaksAfter a a.target inputs.actions[i + 1]?)) ∧
      inputs.passes.countP (·.role = .post) =
        inputs.actions.zipIdx.countP inputs.servesPostprocess :=
  ⟨fun _ _ h ha => ⟨breaksAfter_of_postprocessedAt h ha, postprocessedAt_of_breaksAfter h ha⟩,
    inputs.countP_passes⟩

/-- A camera that asks for post-processing behind its first and its third action, which lie in one
block with the second. -/
def requestedTwice : Inputs where
  actions :=
    [{ camera := { postprocessing := true }, target := none,
        flags := { triggerPostprocess := true } },
      { camera := { postprocessing := true }, target := none },
      { camera := { postprocessing := true }, target := none,
        flags := { triggerPostprocess := true } }]

/-- The second request is served. -/
theorem postprocessed_iff_breaksAfter_requestedTwice :
    ∃ a, requestedTwice.actions[2]? = some a ∧ a.requestsPostprocess ∧
      requestedTwice.PostprocessedAt 2 a := by
  have ha : requestedTwice.actions[2]? = some requestedTwice.actions[2] := rfl
  exact ⟨_, ha, by decide,
    (requestedTwice.postprocessed_iff_breaksAfter.1 2 _ ha (by decide)).2 (by decide)⟩

/-- The first request is lost. -/
theorem not_postprocessedAt_requestedTwice :
    ∃ a, requestedTwice.actions[0]? = some a ∧ a.requestsPostprocess ∧
      ¬ requestedTwice.PostprocessedAt 0 a ∧
      requestedTwice.passes.countP (·.role = .post) = 1 ∧
      requestedTwice.actions.countP Action.requestsPostprocess = 2 := by
  refine ⟨requestedTwice.actions[0], rfl, by decide, fun hpost => ?_, by decide, by decide⟩
  have hbreaks := breaksAfter_of_postprocessedAt rfl (by decide) hpost
  revert hbreaks
  decide

end Inputs

end ForwardShading.Frame
