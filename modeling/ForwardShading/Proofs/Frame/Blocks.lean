import ForwardShading.Frame.Schedule
import Mathlib.Data.List.SplitBy
import Mathlib.Data.List.Pairwise

/-!
# Blocks of actions

The blocks are the actions with their places, cut where two neighbours do not join.  Actions that
join are drawn, into one target, and the later one needs no shadows (`Inputs.joins_iff`), so an
action that is not drawn is a block of its own (`Inputs.eq_nil_of_not_isDrawn`).
Every action has its place in a block between the actions before and behind it
(`Inputs.exists_blocks_eq`), and is the last of its block exactly where the schedule breaks
(`Inputs.eq_nil_iff_breaksAfter`).  The last section says what the passes of a block are, and which
places blocks draw (`Inputs.places_flatMap_blockPasses`).
-/

namespace ForwardShading.Frame

/-- The places of the actions that a pass draws. -/
def Pass.places : Pass → List Nat
  | .forward _ places _ => places
  | _ => []

/-- What a pass is for. -/
inductive Role
  | lights
  | shadows
  | draw
  | grab
  | post
  | external
  deriving DecidableEq, Repr

/-- The role of a pass. -/
def Pass.role : Pass → Role
  | .clusteredLights => .lights
  | .localShadows _ => .lights
  | .directionalShadows .. => .shadows
  | .forward .. => .draw
  | .colorGrab .. => .grab
  | .depthGrab .. => .grab
  | .postProcess _ => .post
  | .external .. => .external

/-- Passes that do not draw have no places. -/
theorem Pass.places_of_role_ne {p : Pass} (h : p.role ≠ .draw) : p.places = [] := by
  cases p with
  | «forward» _ _ _ => exact absurd rfl h
  | _ => rfl

theorem places_eq_nil {ps : List Pass} (h : ∀ p ∈ ps, p.role ≠ .draw) :
    ps.flatMap Pass.places = [] :=
  List.flatMap_eq_nil_iff.2 fun p hp => Pass.places_of_role_ne (h p hp)

/-- Whether an action is drawn.  Passes of its camera and captures are not. -/
def Action.isDrawn (a : Action) : Bool :=
  !a.usesCameraPasses && !a.isCapture

theorem Action.isDrawn_iff {a : Action} :
    a.isDrawn ↔ a.usesCameraPasses = false ∧ a.isCapture = false := by
  simp [isDrawn]

theorem Action.usesCameraPasses_of_isCapture {a : Action} (h : a.isCapture) :
    a.usesCameraPasses = false := by
  simp only [isCapture, Bool.and_eq_true, Bool.not_eq_true'] at h
  exact h.1.1

theorem Action.not_isDrawn_of_isCapture {a : Action} (h : a.isCapture) : ¬ a.isDrawn := by
  simp [isDrawn, h]

namespace Inputs

variable {inputs : Inputs} {a b : Action} {i : Nat} {x y : Action × Nat}
  {block front back rest : List (Action × Nat)} {before after : List (List (Action × Nat))}

theorem joins_iff :
    inputs.joins a b ↔
      a.isDrawn ∧ b.isDrawn ∧ b.target = a.target ∧ inputs.needsShadows b = false := by
  simp only [joins, breaksAfter, Action.isDrawn, Bool.and_eq_true, Bool.not_eq_true',
    Bool.or_eq_false_iff, decide_eq_false_iff_not, ne_eq, not_not]
  tauto

theorem joins_trans {c : Action} (hab : inputs.joins a b) (hbc : inputs.joins b c) :
    inputs.joins a c := by
  obtain ⟨ha, -, hab, -⟩ := joins_iff.1 hab
  obtain ⟨-, hc, hbc, hshadows⟩ := joins_iff.1 hbc
  exact joins_iff.2 ⟨ha, hc, hbc.trans hab, hshadows⟩

theorem breaksAfter_iff (ha : a.usesCameraPasses = false) (next : Option Action) :
    inputs.breaksAfter a a.target next ↔ ∀ b, next = some b → inputs.joins a b = false := by
  cases next with
  | none => simp [breaksAfter]
  | some b => simp [joins, ha]

/-! ## Where actions stand -/

theorem flatten_blocks (inputs : Inputs) : inputs.blocks.flatten = inputs.actions.zipIdx :=
  List.flatten_splitBy _ _

theorem ne_nil_of_mem_blocks (h : block ∈ inputs.blocks) : block ≠ [] :=
  List.ne_nil_of_mem_splitBy h

/-- Any two actions of a block join, as joining is transitive. -/
theorem pairwise_joins (h : block ∈ inputs.blocks) :
    block.Pairwise fun x y => inputs.joins x.1 y.1 = true := by
  let joined : Action × Nat → Action × Nat → Prop := fun x y => inputs.joins x.1 y.1 = true
  have : Trans joined joined joined := ⟨joins_trans⟩
  exact List.isChain_iff_pairwise.1 (List.isChain_of_mem_splitBy h)

theorem getElem?_of_mem_block (h : block ∈ inputs.blocks) (hx : x ∈ block) :
    inputs.actions[x.2]? = some x.1 := by
  rw [← List.mem_zipIdx_iff_getElem?, ← flatten_blocks]
  exact List.mem_flatten_of_mem h hx

theorem exists_blocks_eq (h : inputs.actions[i]? = some a) :
    ∃ before front back after,
      inputs.blocks = before ++ (front ++ (a, i) :: back) :: after := by
  have hmem : (a, i) ∈ inputs.blocks.flatten := by
    rw [flatten_blocks]
    exact List.mk_mem_zipIdx_iff_getElem?.2 h
  obtain ⟨block, hblock, hmem⟩ := List.mem_flatten.1 hmem
  obtain ⟨front, back, rfl⟩ := List.append_of_mem hmem
  obtain ⟨before, after, hblocks⟩ := List.append_of_mem hblock
  exact ⟨before, front, back, after, hblocks⟩

section Position

variable (h : inputs.blocks = before ++ (front ++ (a, i) :: back) :: after)

include h

theorem mem_blocks_of_eq_append : front ++ (a, i) :: back ∈ inputs.blocks := by
  rw [h]
  exact List.mem_append_right _ List.mem_cons_self

theorem before_subset : before ⊆ inputs.blocks := by
  rw [h]
  exact List.subset_append_left _ _

theorem after_subset : after ⊆ inputs.blocks := by
  rw [h]
  exact List.subset_append_of_subset_right _ (List.subset_cons_self _ _)

/-- The actions before and behind an action, with their places. -/
theorem exists_actions_eq :
    ∃ as bs, inputs.actions = as ++ a :: bs ∧ as.length = i ∧
      before.flatten ++ front = as.zipIdx ∧ back ++ after.flatten = bs.zipIdx (i + 1) := by
  have hzip := inputs.flatten_blocks.symm
  rw [h, List.flatten_append, List.flatten_cons, List.append_assoc, List.cons_append,
    ← List.append_assoc] at hzip
  obtain ⟨as, cs, hactions, hfront, hback⟩ := List.zipIdx_eq_append_iff.1 hzip
  obtain ⟨c, bs, rfl, hc, hbs⟩ := List.zipIdx_eq_cons_iff.1 hback.symm
  obtain ⟨rfl, hi⟩ := Prod.mk.inj hc
  rw [Nat.zero_add] at hi
  rw [Nat.zero_add, ← hi] at hbs
  exact ⟨as, bs, hactions, hi.symm, hfront, hbs⟩

theorem lt_of_mem_before (hx : x ∈ before.flatten ++ front) : x.2 < i := by
  obtain ⟨as, bs, -, rfl, hfront, -⟩ := exists_actions_eq h
  rw [hfront] at hx
  simpa using (List.mem_zipIdx hx).2.1

theorem lt_of_mem_after (hx : x ∈ back ++ after.flatten) : i < x.2 := by
  obtain ⟨as, bs, -, -, -, hback⟩ := exists_actions_eq h
  rw [hback] at hx
  exact (List.mem_zipIdx hx).1

theorem mem_before_of_lt {k : Nat} (hk : k < i) (hb : inputs.actions[k]? = some b) :
    (b, k) ∈ before.flatten ++ front := by
  obtain ⟨as, bs, hactions, rfl, hfront, -⟩ := exists_actions_eq h
  rw [hactions, List.getElem?_append_left hk] at hb
  rw [hfront]
  exact List.mk_mem_zipIdx_iff_getElem?.2 hb

/-- What stands right behind an action is the next one. -/
theorem head?_back : (back ++ after.flatten).head? = inputs.actions[i + 1]?.map (·, i + 1) := by
  obtain ⟨as, bs, hactions, rfl, -, hback⟩ := exists_actions_eq h
  rw [hback, hactions]
  cases bs <;> simp

/-- An action is the last of its block exactly where the schedule breaks behind it. -/
theorem eq_nil_iff_breaksAfter (ha : a.usesCameraPasses = false) :
    back = [] ↔ inputs.breaksAfter a a.target inputs.actions[i + 1]? := by
  have hnext := head?_back h
  rw [breaksAfter_iff ha]
  constructor
  · rintro rfl b hb
    rw [hb, List.nil_append] at hnext
    -- The next block begins with the next action, and its neighbour in front does not join it.
    cases after with
    | nil => cases hnext
    | cons next after =>
      have hchain := List.isChain_getLast_head_splitBy
        (fun a b : Action × Nat => inputs.joins a.1 b.1) inputs.actions.zipIdx
      change List.IsChain _ inputs.blocks at hchain
      rw [h, List.isChain_append_cons_cons] at hchain
      obtain ⟨-, ⟨_, hne, hcut⟩, -⟩ := hchain
      rw [List.flatten_cons, List.head?_append_of_ne_nil _ hne, List.head?_eq_some_head hne] at hnext
      rw [Option.some.inj hnext] at hcut
      simpa using hcut
  · intro hcut
    cases back with
    | nil => rfl
    | cons y back =>
      rw [List.cons_append, List.head?_cons] at hnext
      obtain ⟨b, hb, rfl⟩ := Option.map_eq_some_iff.1 hnext.symm
      have hjoins := (List.pairwise_append.1 (pairwise_joins (mem_blocks_of_eq_append h))).2.1
      have hjoin := List.rel_of_pairwise_cons hjoins List.mem_cons_self
      exact absurd hjoin (by simp [hcut b hb])

end Position

/-! ## What blocks hold -/

theorem joins_of_mem_rest (h : x :: rest ∈ inputs.blocks) (hy : y ∈ rest) :
    inputs.joins x.1 y.1 :=
  List.rel_of_pairwise_cons (pairwise_joins h) hy

/-- An action that is not drawn is a block of its own. -/
theorem eq_nil_of_not_isDrawn (h : x :: rest ∈ inputs.blocks) (hx : ¬ x.1.isDrawn) : rest = [] := by
  cases rest with
  | nil => rfl
  | cons y rest => exact absurd (joins_iff.1 (joins_of_mem_rest h List.mem_cons_self)).1 hx

theorem isDrawn_of_mem_block (h : x :: rest ∈ inputs.blocks) (hx : x.1.isDrawn)
    (hy : y ∈ x :: rest) : y.1.isDrawn := by
  rcases List.mem_cons.1 hy with rfl | hy
  · exact hx
  · exact (joins_iff.1 (joins_of_mem_rest h hy)).2.1

theorem target_of_mem_block (h : x :: rest ∈ inputs.blocks) (hy : y ∈ x :: rest) :
    y.1.target = x.1.target := by
  rcases List.mem_cons.1 hy with rfl | hy
  · rfl
  · exact (joins_iff.1 (joins_of_mem_rest h hy)).2.2.1

/-- The actions of a block have consecutive places. -/
theorem places_block (h : x :: rest ∈ inputs.blocks) :
    (x :: rest).map (·.2) = List.range' x.2 (x :: rest).length := by
  obtain ⟨before, after, hblocks⟩ := List.append_of_mem h
  have hfirst : inputs.blocks = before ++ ([] ++ (x.1, x.2) :: rest) :: after := hblocks
  obtain ⟨-, bs, -, -, -, hback⟩ := exists_actions_eq hfirst
  obtain ⟨cs, ds, -, hrest, -⟩ := List.zipIdx_eq_append_iff.1 hback.symm
  rw [hrest, List.map_cons, List.zipIdx_map_snd, List.length_cons, List.length_zipIdx,
    List.range'_succ]

/-! ## Passes of blocks -/

/-- The pass in front of an action that needs shadows. -/
def shadowPasses (inputs : Inputs) (a : Action) : List Pass :=
  if inputs.needsShadows a then
    [.directionalShadows a.camera.id (inputs.shadowLights a.camera.id)]
  else
    []

theorem role_of_mem_prologue {p : Pass} (h : p ∈ inputs.prologue) : p.role = .lights := by
  unfold prologue at h
  split at h
  · rw [List.mem_singleton.1 h]
    rfl
  · split at h
    · cases h
    · rw [List.mem_singleton.1 h]
      rfl

theorem role_of_mem_shadowPasses {p : Pass} (h : p ∈ inputs.shadowPasses a) :
    p.role = .shadows := by
  simp only [shadowPasses, List.mem_ite_nil_right, List.mem_singleton] at h
  rw [h.2]
  rfl

theorem role_of_mem_grabPasses {p : Pass} (h : p ∈ grabPasses a) : p.role = .grab := by
  simp only [grabPasses, List.mem_ite_nil_right, List.mem_append, List.mem_singleton] at h
  rcases h with ⟨-, ⟨-, rfl⟩ | ⟨-, rfl⟩⟩ <;> rfl

theorem role_of_mem_postPasses {p : Pass} (h : p ∈ postPasses a) : p.role = .post := by
  simp only [postPasses, List.mem_ite_nil_right, List.mem_singleton] at h
  rw [h.2]
  rfl

theorem role_of_mem_externals {p : Pass} {camera : CameraId} {names : List String}
    (h : p ∈ names.map (Pass.external camera)) : p.role = .external := by
  obtain ⟨name, -, rfl⟩ := List.mem_map.1 h
  rfl

/-- The kinds of blocks, with the passes that each becomes. -/
inductive Scheduled (inputs : Inputs) : List (Action × Nat) → List Pass → Prop
  | drawn {x y : Action × Nat} {rest : List (Action × Nat)}
      (all : ∀ z ∈ x :: rest, z.1.isDrawn) (last : (x :: rest).getLast? = some y) :
      Scheduled inputs (x :: rest)
        (inputs.shadowPasses x.1 ++
          .forward x.1.target ((x :: rest).map (·.2)) x.1.flags.clear :: postPasses y.1)
  | captured {x : Action × Nat} (capture : x.1.isCapture) :
      Scheduled inputs [x] (grabPasses x.1 ++ postPasses x.1)
  | supplied {x : Action × Nat} {names : List String} (passes : x.1.passes = some names) :
      Scheduled inputs [x] (names.map (.external x.1.camera.id))

theorem scheduled_blockPasses (h : block ∈ inputs.blocks) :
    inputs.Scheduled block (inputs.blockPasses block) := by
  cases block with
  | nil => exact absurd rfl (ne_nil_of_mem_blocks h)
  | cons x rest =>
    cases hpasses : x.1.passes with
    | some names =>
      have hx : ¬ x.1.isDrawn := by simp [Action.isDrawn, Action.usesCameraPasses, hpasses]
      obtain rfl := eq_nil_of_not_isDrawn h hx
      have hblock : inputs.blockPasses [x] = names.map (.external x.1.camera.id) := by
        simp [blockPasses, hpasses]
      rw [hblock]
      exact .supplied hpasses
    | none =>
      have huses : x.1.usesCameraPasses = false := by simp [Action.usesCameraPasses, hpasses]
      have hblock : inputs.blockPasses (x :: rest) =
          inputs.drawPasses x.1 ((x :: rest).map (·.2)) ++
            grabPasses ((x :: rest).getLast (List.cons_ne_nil x rest)).1 ++
              postPasses ((x :: rest).getLast (List.cons_ne_nil x rest)).1 := by
        simp only [blockPasses, List.head?_cons, List.getLast?_eq_some_getLast, ne_eq,
          List.cons_ne_nil, not_false_eq_true, hpasses]
      rw [hblock]
      by_cases hx : x.1.isCapture
      · obtain rfl := eq_nil_of_not_isDrawn h (Action.not_isDrawn_of_isCapture hx)
        rw [drawPasses, if_pos hx]
        exact .captured hx
      · have hall : ∀ y ∈ x :: rest, y.1.isDrawn := fun y hy =>
          isDrawn_of_mem_block h (by simp [Action.isDrawn, huses, hx]) hy
        have hgrab := (Action.isDrawn_iff.1 (hall _ (List.getLast_mem (List.cons_ne_nil x rest)))).2
        rw [drawPasses, if_neg hx, grabPasses, hgrab, List.append_assoc, List.append_assoc]
        exact .drawn hall (List.getLast?_eq_some_getLast _)

/-- An action that is drawn is drawn by a pass that draws its whole block. -/
theorem exists_forward_of_mem_block (h : block ∈ inputs.blocks) (hx : x ∈ block)
    (hdrawn : x.1.isDrawn) :
    ∃ p ∈ inputs.passes, p.role = .draw ∧ p.places = block.map (·.2) := by
  suffices ∃ p ∈ inputs.blockPasses block, p.role = .draw ∧ p.places = block.map (·.2) by
    obtain ⟨p, hp, hplaces⟩ := this
    exact ⟨p, List.mem_append_right _ (List.mem_flatMap.2 ⟨block, h, hp⟩), hplaces⟩
  have hscheduled := scheduled_blockPasses h
  generalize inputs.blockPasses block = ps at hscheduled
  cases hscheduled with
  | drawn all last =>
    exact ⟨_, List.mem_append_right _ List.mem_cons_self, rfl, rfl⟩
  | captured capture =>
    rw [List.mem_singleton.1 hx] at hdrawn
    exact absurd hdrawn (Action.not_isDrawn_of_isCapture capture)
  | supplied passes =>
    rw [List.mem_singleton.1 hx] at hdrawn
    exact absurd (Action.isDrawn_iff.1 hdrawn).1 (by simp [Action.usesCameraPasses, passes])

theorem places_prologue (inputs : Inputs) : inputs.prologue.flatMap Pass.places = [] :=
  places_eq_nil fun p hp => by simp [role_of_mem_prologue hp]

/-- A block draws its actions that are drawn. -/
theorem places_blockPasses (h : block ∈ inputs.blocks) :
    (inputs.blockPasses block).flatMap Pass.places =
      (block.filter (·.1.isDrawn)).map (·.2) := by
  have hscheduled := scheduled_blockPasses h
  generalize inputs.blockPasses block = ps at hscheduled
  cases hscheduled with
  | @drawn x y rest all last =>
    have hshadows : (inputs.shadowPasses x.1).flatMap Pass.places = [] :=
      places_eq_nil fun p hp => by simp [role_of_mem_shadowPasses hp]
    have hpost : (postPasses y.1).flatMap Pass.places = [] :=
      places_eq_nil fun p hp => by simp [role_of_mem_postPasses hp]
    rw [List.flatMap_append, List.flatMap_cons, hshadows, hpost, List.filter_eq_self.2 all]
    exact List.append_nil _
  | @captured x capture =>
    have hx : [x].filter (·.1.isDrawn) = [] := by simp [Action.isDrawn, capture]
    rw [hx]
    refine places_eq_nil fun p hp => ?_
    rcases List.mem_append.1 hp with hp | hp
    · simp [role_of_mem_grabPasses hp]
    · simp [role_of_mem_postPasses hp]
  | @supplied x names passes =>
    have hx : [x].filter (·.1.isDrawn) = [] := by
      simp [Action.isDrawn, Action.usesCameraPasses, passes]
    rw [hx]
    exact places_eq_nil fun p hp => by simp [role_of_mem_externals hp]

/-- The places that blocks draw are those of their actions that are drawn. -/
theorem places_flatMap_blockPasses {blocks : List (List (Action × Nat))}
    (h : blocks ⊆ inputs.blocks) :
    (blocks.flatMap inputs.blockPasses).flatMap Pass.places =
      (blocks.flatten.filter (·.1.isDrawn)).map (·.2) := by
  induction blocks with
  | nil => rfl
  | cons block blocks ih =>
    obtain ⟨hblock, hblocks⟩ := List.cons_subset.1 h
    rw [List.flatMap_cons, List.flatMap_append, places_blockPasses hblock, ih hblocks,
      List.flatten_cons, List.filter_append, List.map_append]

theorem mem_places_flatMap_blockPasses {blocks : List (List (Action × Nat))}
    (h : blocks ⊆ inputs.blocks) {k : Nat} :
    k ∈ (blocks.flatMap inputs.blockPasses).flatMap Pass.places ↔
      ∃ c, (c, k) ∈ blocks.flatten ∧ inputs.actions[k]? = some c ∧ c.isDrawn := by
  rw [places_flatMap_blockPasses h, List.mem_map]
  constructor
  · rintro ⟨⟨c, k⟩, hx, rfl⟩
    obtain ⟨hc, hdrawn⟩ := List.mem_filter.1 hx
    obtain ⟨block, hblock, hmem⟩ := List.mem_flatten.1 hc
    exact ⟨c, hc, getElem?_of_mem_block (h hblock) hmem, hdrawn⟩
  · rintro ⟨c, hc, -, hdrawn⟩
    exact ⟨(c, k), List.mem_filter.2 ⟨hc, hdrawn⟩, rfl⟩

theorem places_passes (inputs : Inputs) :
    inputs.passes.flatMap Pass.places =
      (inputs.actions.zipIdx.filter (·.1.isDrawn)).map (·.2) := by
  rw [passes, List.flatMap_append, places_prologue, List.nil_append,
    places_flatMap_blockPasses (List.Subset.refl _), flatten_blocks]

end Inputs

end ForwardShading.Frame
