import ForwardShading.Proofs.Frame.Coverage
import ForwardShading.Proofs.Frame.Cuts
import Mathlib.Data.List.Nodup
import Mathlib.Data.List.Perm.Subperm
import Mathlib.Order.Bounds.Defs

/-!
# Greedy schedules

A schedule can be made in one walk over the actions that remembers only the action at which the open
block began, and asks of that action alone which target the block has (`Inputs.walk`).  Actions that
join do so pair by pair, so the walk cuts where two neighbours have to be cut and nowhere else
(`Inputs.actionPasses_eq_walk`).  Any other way to gather the actions that are drawn into runs of
neighbours has at least as many runs (`Inputs.passes_cut_least`).
-/

namespace ForwardShading.Frame

/-! ## Runs of neighbours -/

section Runs

variable {run : List Nat} {runs groups : List (List Nat)}

/-- Runs that have an entry in common are the same. -/
theorem eq_of_mem_of_nodup_flatten (h : runs.flatten.Nodup) {run' : List Nat} (hrun : run ∈ runs)
    (hrun' : run' ∈ runs) {i : Nat} (hi : i ∈ run) (hi' : i ∈ run') : run = run' := by
  have : Std.Symm (List.Disjoint (α := Nat)) := ⟨fun _ _ => List.disjoint_symm⟩
  by_contra hne
  exact (List.nodup_flatten.1 h).2.forall hrun hrun' hne hi hi'

theorem nodup_map_head? (h : runs.flatten.Nodup) (hne : ∀ run ∈ runs, run ≠ []) :
    (runs.map List.head?).Nodup := by
  have hdisjoint := (List.nodup_flatten.1 h).2
  refine List.pairwise_map.2 (hdisjoint.imp_of_mem fun {run run'} hrun _ hdisjoint heq => ?_)
  have hhead := List.head?_eq_some_head (hne run hrun)
  rw [hhead] at heq
  exact hdisjoint (List.head_mem _) (List.mem_of_head? heq.symm)

theorem exists_head_of_eq_range' (hne : run ≠ []) (hrun : ∃ start, run = List.range' start run.length) :
    ∃ first, run.head? = some first ∧ ∀ i, i ∈ run ↔ first ≤ i ∧ i < first + run.length := by
  obtain ⟨start, hstart⟩ := hrun
  have hpos := List.length_pos_iff.2 hne
  refine ⟨start, ?_, fun i => ?_⟩
  · rw [hstart, List.head?_range', if_neg (by omega)]
  · rw [hstart, List.mem_range'_1, List.length_range']

/-- Where all neighbours that share a group also share a run, there are no more runs than groups. -/
theorem length_le_of_coarser
    (hruns : ∀ run ∈ runs, run ≠ [] ∧ ∃ start, run = List.range' start run.length)
    (hnodup : runs.flatten.Nodup)
    (hgroups : ∀ group ∈ groups, ∃ start, group = List.range' start group.length)
    (hcovers : ∀ i, (∃ run ∈ runs, i ∈ run) → ∃ group ∈ groups, i ∈ group)
    (hcoarser : ∀ i, (∃ group ∈ groups, i ∈ group ∧ i + 1 ∈ group) →
      ∃ run ∈ runs, i ∈ run ∧ i + 1 ∈ run) :
    runs.length ≤ groups.length := by
  -- A group that holds the first of a run begins there, since its neighbour in front is in another run.
  have hsubset : runs.map List.head? ⊆ groups.map List.head? := by
    intro head hhead
    obtain ⟨run, hrun, rfl⟩ := List.mem_map.1 hhead
    obtain ⟨first, hhead, hmem⟩ := exists_head_of_eq_range' (hruns run hrun).1 (hruns run hrun).2
    have hfirst := List.mem_of_head? hhead
    obtain ⟨group, hgroup, hin⟩ := hcovers first ⟨run, hrun, hfirst⟩
    obtain ⟨first', hhead', hmem'⟩ :=
      exists_head_of_eq_range' (List.ne_nil_of_mem hin) (hgroups group hgroup)
    have hle := (hmem' first).1 hin
    refine List.mem_map.2 ⟨group, hgroup, ?_⟩
    rcases Nat.eq_or_lt_of_le hle.1 with heq | hlt
    · rw [hhead, hhead', heq]
    · obtain ⟨i, rfl⟩ := Nat.exists_eq_add_of_lt hlt
      have hi : first' + i ∈ group := (hmem' _).2 (by omega)
      obtain ⟨run', hrun', hi', hnext⟩ := hcoarser _ ⟨group, hgroup, hi, hin⟩
      obtain rfl := eq_of_mem_of_nodup_flatten hnodup hrun hrun' hfirst hnext
      have := (hmem _).1 hi'
      omega
  have hheads := nodup_map_head? hnodup fun run hrun => (hruns run hrun).1
  simpa using (List.subperm_of_subset hheads hsubset).length_le

end Runs

theorem Pass.isForward_iff (p : Pass) : p.isForward ↔ p.role = .draw := by
  cases p <;> simp [isForward, role]

namespace Inputs

variable {inputs : Inputs} {a b : Action} {i : Nat} {cs as rest : List Action}

/-! ## The walk -/

/-- The passes of a block with the given first and last action.  A capture that is alone draws
nothing. -/
def closeBlock (inputs : Inputs) (first last : Action × Nat) : List Pass :=
  (if first.2 = last.2 ∧ last.1.isCapture then
    []
  else
    inputs.shadowPasses first.1 ++
      [.forward first.1.target (List.range' first.2 (last.2 + 1 - first.2)) first.1.flags.clear]) ++
  grabPasses last.1 ++ postPasses last.1

/-- The passes of the actions from a place on, made in one walk.  Of the actions before, it knows
only the one at which the open block began, if a block is open. -/
def walk (inputs : Inputs) (begun : Option (Action × Nat)) (i : Nat) : List Action → List Pass
  | [] => []
  | a :: rest =>
    match a.passes with
    | some names => names.map (.external a.camera.id) ++ inputs.walk begun (i + 1) rest
    | none =>
      let first := begun.getD (a, i)
      if inputs.breaksAfter a first.1.target rest.head? then
        inputs.closeBlock first (a, i) ++ inputs.walk none (i + 1) rest
      else
        inputs.walk (some first) (i + 1) rest

theorem drawPasses_eq (ha : ¬ a.isCapture) (places : List Nat) :
    inputs.drawPasses a places =
      inputs.shadowPasses a ++ [.forward a.target places a.flags.clear] :=
  if_neg ha

/-- The first of some actions that all join joins the last. -/
theorem joins_of_isChain {x : Action} (h : (x :: cs ++ [a]).IsChain fun a b => inputs.joins a b) :
    inputs.joins x a := by
  let joined : Action → Action → Prop := fun a b => inputs.joins a b
  have : Trans joined joined joined := ⟨joins_trans⟩
  exact List.rel_of_pairwise_cons (List.isChain_iff_pairwise.1 h) List.mem_concat_self

/-- Actions that all join are one block, which is closed behind the last of them. -/
theorem closeBlock_eq (hjoins : (cs ++ [a]).IsChain fun a b => inputs.joins a b) (ha : a.passes = none)
    (start : Nat) :
    inputs.closeBlock ((cs.head?.map (·, start)).getD (a, start + cs.length)) (a, start + cs.length) =
      inputs.blockPasses ((cs ++ [a]).zipIdx start) := by
  have hlast : ((cs ++ [a]).zipIdx start).getLast? = some (a, start + cs.length) := by
    rw [List.zipIdx_append, List.zipIdx_singleton, List.getLast?_concat]
  cases cs with
  | nil =>
    have hblock : inputs.blockPasses [(a, start)] =
        inputs.drawPasses a [start] ++ grabPasses a ++ postPasses a := by
      simp [blockPasses, ha]
    show inputs.closeBlock (a, start) (a, start) = inputs.blockPasses [(a, start)]
    by_cases hcapture : a.isCapture
    · simp [closeBlock, hblock, drawPasses, hcapture]
    · simp [closeBlock, hblock, drawPasses_eq hcapture, hcapture]
  | cons x cs =>
    obtain ⟨huses, hcapture⟩ := Action.isDrawn_iff.1 (joins_iff.1 (joins_of_isChain hjoins)).1
    have hpasses : x.passes = none := by simpa [Action.usesCameraPasses] using huses
    have hfirst : ((x :: cs ++ [a]).zipIdx start).head? = some (x, start) := by simp
    have hplaces : ((x :: cs ++ [a]).zipIdx start).map (·.2) =
        List.range' start (start + (x :: cs).length + 1 - start) := by
      rw [List.zipIdx_map_snd, List.length_append, List.length_singleton]
      congr 1
      omega
    simp only [blockPasses, hfirst, hlast, hpasses, hplaces]
    rw [drawPasses_eq (by simp [hcapture]), closeBlock, if_neg (by simp)]
    rfl

/-- A block that is closed, with the actions behind it. -/
theorem flatMap_splitBy_eq (hjoins : (cs ++ [a]).IsChain fun a b => inputs.joins a b)
    (hcut : ∀ b ∈ rest.head?, inputs.joins a b = false) (start : Nat) :
    (((cs ++ a :: rest).zipIdx start).splitBy fun x y => inputs.joins x.1 y.1).flatMap
        inputs.blockPasses =
      inputs.blockPasses ((cs ++ [a]).zipIdx start) ++
        ((rest.zipIdx (start + cs.length + 1)).splitBy fun x y => inputs.joins x.1 y.1).flatMap
          inputs.blockPasses := by
  have hchain : ((cs ++ [a]).zipIdx start).IsChain fun x y => inputs.joins x.1 y.1 := by
    rw [← List.zipIdx_map_fst start (cs ++ [a])] at hjoins
    exact (List.isChain_map _).1 hjoins
  have hne : (cs ++ [a]).zipIdx start ≠ [] := by simp
  have hsplit : (cs ++ a :: rest).zipIdx start =
      (cs ++ [a]).zipIdx start ++ rest.zipIdx (start + cs.length + 1) := by
    rw [List.append_cons, List.zipIdx_append, List.length_append, List.length_singleton,
      Nat.add_assoc]
  rw [hsplit, List.splitBy_append, List.splitBy_of_isChain hne hchain, List.flatMap_append,
    List.flatMap_singleton]
  intro x hx y hy
  rw [List.zipIdx_append, List.zipIdx_singleton, List.getLast?_concat] at hx
  rw [List.head?_zipIdx] at hy
  obtain ⟨b, hb, rfl⟩ := Option.map_eq_some_iff.1 hy
  obtain rfl := Option.some.inj hx
  exact hcut b hb

/-- The target of a block is that of the action at which it began. -/
theorem target_begun (hjoins : (cs ++ [a]).IsChain fun a b => inputs.joins a b) (start i : Nat) :
    ((cs.head?.map (·, start)).getD (a, i)).1.target = a.target := by
  cases cs with
  | nil => rfl
  | cons x cs => exact (joins_iff.1 (joins_of_isChain hjoins)).2.2.1.symm

theorem eq_nil_of_isChain (hjoins : (cs ++ [a]).IsChain fun a b => inputs.joins a b)
    (ha : ¬ a.isDrawn) : cs = [] := by
  cases cs with
  | nil => rfl
  | cons x cs => exact absurd (joins_iff.1 (joins_of_isChain hjoins)).2.1 ha

/-- The walk has the passes of the actions from a place on, together with those that joined them
before.  The actions of the open block all join, and the next action joins them too. -/
theorem walk_eq (hjoins : (cs ++ as.head?.toList).IsChain fun a b => inputs.joins a b)
    (hopen : as = [] → cs = []) (start : Nat) :
    inputs.walk (cs.head?.map (·, start)) (start + cs.length) as =
      (((cs ++ as).zipIdx start).splitBy fun x y => inputs.joins x.1 y.1).flatMap
        inputs.blockPasses := by
  induction as generalizing cs start with
  | nil =>
    rw [hopen rfl]
    rfl
  | cons a rest ih =>
    have hjoins : (cs ++ [a]).IsChain fun a b => inputs.joins a b := hjoins
    have hnone : ([] ++ rest.head?.toList).IsChain fun a b => inputs.joins a b := by
      cases rest <;> simp
    cases hpasses : a.passes with
    | some names =>
      have hdrawn : ¬ a.isDrawn := by simp [Action.isDrawn, Action.usesCameraPasses, hpasses]
      obtain rfl := eq_nil_of_isChain hjoins hdrawn
      have hcut : ∀ b ∈ rest.head?, inputs.joins a b = false := fun b _ =>
        Bool.eq_false_iff.2 fun hab => hdrawn (joins_iff.1 hab).1
      have hblock : inputs.blockPasses (([] ++ [a]).zipIdx start) =
          names.map (.external a.camera.id) := by
        simp [blockPasses, hpasses]
      rw [flatMap_splitBy_eq hjoins hcut, hblock, walk, hpasses]
      exact congrArg _ (ih hnone (fun _ => rfl) (start + 1))
    | none =>
      have huses : a.usesCameraPasses = false := by simp [Action.usesCameraPasses, hpasses]
      rw [walk, hpasses]
      simp only [target_begun hjoins]
      by_cases hbreak : inputs.breaksAfter a a.target rest.head?
      · rw [if_pos hbreak, closeBlock_eq hjoins hpasses,
          flatMap_splitBy_eq hjoins ((breaksAfter_iff huses _).1 hbreak)]
        exact congrArg _ (ih hnone (fun _ => rfl) (start + cs.length + 1))
      · rw [if_neg hbreak]
        cases rest with
        | nil => exact absurd rfl hbreak
        | cons b rest =>
          have hab : inputs.joins a b := by simpa [breaksAfter_iff huses] using hbreak
          have hnext : (cs ++ [a] ++ [b]).IsChain fun a b => inputs.joins a b :=
            List.isChain_append.2 ⟨hjoins, List.isChain_singleton b, by simpa using hab⟩
          have hbegun : some ((cs.head?.map (·, start)).getD (a, start + cs.length)) =
              (cs ++ [a]).head?.map (·, start) := by
            cases cs <;> rfl
          have hwalk := ih hnext (fun hnil => absurd hnil (List.cons_ne_nil b rest)) start
          rw [List.length_append, List.append_assoc] at hwalk
          rw [hbegun]
          exact hwalk

theorem actionPasses_eq_walk (inputs : Inputs) :
    inputs.actionPasses = inputs.walk none 0 inputs.actions := by
  have hfirst : ([] ++ inputs.actions.head?.toList).IsChain fun a b => inputs.joins a b := by
    cases inputs.actions <;> simp
  rw [actionPasses_eq]
  exact (walk_eq hfirst (fun _ => rfl) 0).symm

/-! ## Where blocks are cut -/

/-- Whether two actions are drawn by one forward pass. -/
def DrawnTogether (inputs : Inputs) (i j : Nat) : Prop :=
  ∃ p ∈ inputs.passes, p.isForward ∧ i ∈ p.places ∧ j ∈ p.places

theorem exists_block_of_mem_places {p : Pass} (hp : p ∈ inputs.passes) (hi : i ∈ p.places) :
    ∃ block ∈ inputs.blocks, p.places = block.map (·.2) := by
  cases p with
  | «forward» target places clear =>
    obtain ⟨x, rest, hblock, -, hplaces, -⟩ := exists_block_of_forward hp
    exact ⟨x :: rest, hblock, hplaces⟩
  | _ => cases hi

/-- An action joins those behind it in its block. -/
theorem joins_of_mem_block {block : List (Action × Nat)} {j : Nat} (h : block ∈ inputs.blocks)
    (ha : (a, i) ∈ block) (hb : (b, j) ∈ block) (hij : i < j) : inputs.joins a b := by
  obtain ⟨before, after, hblocks⟩ := List.append_of_mem h
  obtain ⟨front, back, rfl⟩ := List.append_of_mem ha
  rcases List.mem_append.1 hb with hb | hb
  · have := lt_of_mem_before hblocks (List.mem_append_right _ hb)
    omega
  · rcases List.mem_cons.1 hb with hb | hb
    · cases hb
      omega
    · exact List.rel_of_pairwise_cons (List.pairwise_append.1 (pairwise_joins h)).2.1 hb

/-- Neighbours are drawn together exactly if they join. -/
theorem drawnTogether_iff (ha : inputs.actions[i]? = some a) (hb : inputs.actions[i + 1]? = some b) :
    inputs.DrawnTogether i (i + 1) ↔ inputs.joins a b := by
  constructor
  · rintro ⟨p, hp, -, hi, hj⟩
    obtain ⟨block, hblock, hplaces⟩ := exists_block_of_mem_places hp hi
    rw [hplaces] at hi hj
    obtain ⟨⟨c, _⟩, hc, rfl⟩ := List.mem_map.1 hi
    obtain ⟨⟨d, _⟩, hd, rfl⟩ := List.mem_map.1 hj
    obtain rfl : a = c := Option.some.inj (ha.symm.trans (getElem?_of_mem_block hblock hc))
    obtain rfl : b = d := Option.some.inj (hb.symm.trans (getElem?_of_mem_block hblock hd))
    exact joins_of_mem_block hblock hc hd (Nat.lt_succ_self _)
  · intro hjoins
    obtain ⟨before, front, back, after, hblocks⟩ := exists_blocks_eq ha
    have hdrawn := (joins_iff.1 hjoins).1
    have huses := (Action.isDrawn_iff.1 hdrawn).1
    have hback : back ≠ [] := by
      rw [ne_eq, eq_nil_iff_breaksAfter hblocks huses, breaksAfter_iff huses, hb]
      simp [hjoins]
    obtain ⟨y, back, rfl⟩ := List.exists_cons_of_ne_nil hback
    have hnext := head?_back hblocks
    rw [hb, List.cons_append, List.head?_cons] at hnext
    obtain rfl : y = (b, i + 1) := Option.some.inj hnext
    obtain ⟨p, hp, hrole, hplaces⟩ := exists_forward_of_mem_block (mem_blocks_of_eq_append hblocks)
      (x := (a, i)) (by simp) hdrawn
    exact ⟨p, hp, p.isForward_iff.2 hrole, by simp [hplaces], by simp [hplaces]⟩

/-! ## The fewest forward passes -/

/-- Runs of neighbouring actions that could each be drawn by one forward pass: together they hold the
actions that are drawn, and no two neighbours of a run have to be cut. -/
structure IsGrouping (inputs : Inputs) (runs : List (List Nat)) : Prop where
  consecutive : ∀ run ∈ runs, ∃ start, run = List.range' start run.length
  drawn : ∀ i, (∃ run ∈ runs, i ∈ run) ↔
    ∃ a, inputs.actions[i]? = some a ∧ a.usesCameraPasses = false ∧ a.isCapture = false
  uncut : ∀ run ∈ runs, ∀ i a b, i ∈ run → i + 1 ∈ run → inputs.actions[i]? = some a →
    inputs.actions[i + 1]? = some b → ¬ inputs.IsCut a b

theorem not_isCut_iff : ¬ inputs.IsCut a b ↔ inputs.joins a b := by
  rw [isCut_iff, Bool.not_eq_false]

/-- What each forward pass draws. -/
def runs (inputs : Inputs) : List (List Nat) :=
  (inputs.passes.filter Pass.isForward).map Pass.places

theorem mem_runs {run : List Nat} :
    run ∈ inputs.runs ↔ ∃ p ∈ inputs.passes, p.isForward ∧ p.places = run := by
  simp [runs, and_assoc]

theorem length_runs (inputs : Inputs) : inputs.runs.length = inputs.passes.countP Pass.isForward := by
  rw [runs, List.length_map, List.countP_eq_length_filter]

theorem isRun_of_mem_runs {run : List Nat} (h : run ∈ inputs.runs) :
    ∃ target clear, inputs.IsRun target run clear := by
  obtain ⟨p, hp, hforward, rfl⟩ := mem_runs.1 h
  cases p with
  | «forward» target places clear => exact ⟨target, clear, isRun_of_mem_passes hp⟩
  | _ => cases hforward

theorem flatten_runs (inputs : Inputs) : inputs.runs.flatten = inputs.passes.flatMap Pass.places := by
  rw [runs]
  induction inputs.passes with
  | nil => rfl
  | cons p ps ih =>
    rw [List.flatMap_cons, ← ih]
    by_cases hp : p.isForward
    · rw [List.filter_cons_of_pos hp, List.map_cons, List.flatten_cons]
    · rw [List.filter_cons_of_neg hp, Pass.places_of_role_ne (mt p.isForward_iff.2 hp), List.nil_append]

theorem isGrouping_runs (inputs : Inputs) : inputs.IsGrouping inputs.runs where
  consecutive run hrun := by
    obtain ⟨target, clear, hrun⟩ := isRun_of_mem_runs hrun
    exact hrun.consecutive
  drawn i := by
    rw [← List.mem_flatten, flatten_runs, mem_places_passes]
    simp only [Action.isDrawn_iff]
  uncut run hrun i a b hi hnext ha hb := by
    obtain ⟨p, hp, hforward, rfl⟩ := mem_runs.1 hrun
    exact not_isCut_iff.2 ((drawnTogether_iff ha hb).1 ⟨p, hp, hforward, hi, hnext⟩)

theorem IsGrouping.length_runs_le {groups : List (List Nat)} (h : inputs.IsGrouping groups) :
    inputs.runs.length ≤ groups.length := by
  refine length_le_of_coarser (fun run hrun => ?_) ?_ h.consecutive (fun i hi => ?_) fun i hi => ?_
  · obtain ⟨target, clear, hrun⟩ := isRun_of_mem_runs hrun
    exact ⟨hrun.nonempty, hrun.consecutive⟩
  · rw [flatten_runs]
    exact inputs.pairwise_places_passes.imp Nat.ne_of_lt
  · rwa [h.drawn, ← inputs.isGrouping_runs.drawn]
  · obtain ⟨group, hgroup, hi, hnext⟩ := hi
    obtain ⟨a, ha, -⟩ := (h.drawn i).1 ⟨group, hgroup, hi⟩
    obtain ⟨b, hb, -⟩ := (h.drawn (i + 1)).1 ⟨group, hgroup, hnext⟩
    have hjoins := not_isCut_iff.1 (h.uncut group hgroup i a b hi hnext ha hb)
    obtain ⟨p, hp, hforward, hplaces⟩ := (drawnTogether_iff ha hb).2 hjoins
    exact ⟨p.places, mem_runs.2 ⟨p, hp, hforward, rfl⟩, hplaces⟩

/-- The passes of a frame are those of the greedy walk.  Neighbours are drawn by one forward pass
exactly if nothing has to happen between them, and there are as few forward passes as that allows. -/
theorem passes_cut_least (inputs : Inputs) :
    inputs.passes = inputs.prologue ++ inputs.walk none 0 inputs.actions ∧
      (∀ i a b, inputs.actions[i]? = some a → inputs.actions[i + 1]? = some b →
        (inputs.DrawnTogether i (i + 1) ↔ ¬ inputs.IsCut a b)) ∧
      IsLeast {n | ∃ groups, inputs.IsGrouping groups ∧ groups.length = n}
        (inputs.passes.countP Pass.isForward) := by
  refine ⟨?_, fun i a b ha hb => ?_, ⟨inputs.runs, inputs.isGrouping_runs, inputs.length_runs⟩, ?_⟩
  · rw [passes_eq_append, actionPasses_eq_walk]
  · rw [drawnTogether_iff ha hb, not_isCut_iff]
  · rintro _ ⟨groups, hgroups, rfl⟩
    rw [← length_runs]
    exact hgroups.length_runs_le

/-- Two cameras draw into the back buffer, the second with shadows of its own, and then into a map. -/
def shadowedSecond : Inputs where
  actions :=
    [{ camera := {}, target := none }, { camera := {}, target := none },
      { camera := { id := 1 }, target := none, flags := { firstCameraUse := true } },
      { camera := { id := 1 }, target := none }, { camera := { id := 1 }, target := some ⟨1⟩ }]
  directionalShadows := OrderedMap.empty.insert 1 [8]

theorem passes_cut_least_shadowedSecond :
    shadowedSecond.passes =
        [.forward none [0, 1] {}, .directionalShadows 1 [8], .forward none [2, 3] {},
          .forward (some ⟨1⟩) [4] {}] ∧
      shadowedSecond.DrawnTogether 0 1 ∧ ¬ shadowedSecond.DrawnTogether 1 2 ∧
      IsLeast {n | ∃ groups, shadowedSecond.IsGrouping groups ∧ groups.length = n} 3 := by
  obtain ⟨hwalk, hcut, hleast⟩ := shadowedSecond.passes_cut_least
  refine ⟨?_, (hcut 0 _ _ rfl rfl).2 ?_, mt (hcut 1 _ _ rfl rfl).1 ?_, hleast⟩
  · rw [hwalk]
    decide
  · exact not_isCut_iff.2 (by decide)
  · exact not_not_intro (isCut_iff.2 (by decide))

end Inputs

end ForwardShading.Frame
