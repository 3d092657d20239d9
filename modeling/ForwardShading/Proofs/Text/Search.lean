import ForwardShading.Text.Search
import Mathlib.Data.List.TakeWhile

/-!
# First occurrences

Where the first occurrence of a pattern in a text put together of two parts is: in the first part,
if the pattern occurs there (`breakOn_append_of_eq_some`), and else in the second part, unless it
stands across the border (`breakOn_append_of_eq_none`).  A text is broken at the first or the last
occurrence of a character (`breakAt_append_cons`, `breakAtLast_eq_some`).
-/

namespace ForwardShading.Text

variable {pattern cs before after : List Char}

theorem stripStart_eq_none : stripStart pattern cs = none ↔ ¬ pattern <+: cs := by
  rw [Option.eq_none_iff_forall_not_mem]
  exact ⟨fun h ⟨rest, hr⟩ => h rest (stripStart_eq_some.2 hr.symm),
    fun h rest hr => h ⟨rest, (stripStart_eq_some.1 hr).symm⟩⟩

theorem breakOn_eq_some_nil (h : cs ≠ []) {rest : List Char} (hcs : cs = pattern ++ rest) :
    breakOn pattern cs = some ([], rest) := by
  cases cs with
  | nil => exact absurd rfl h
  | cons c cs => rw [breakOn, stripStart_eq_some.2 hcs]

theorem breakOn_cons_eq_map {c : Char} (h : ¬ pattern <+: c :: cs) :
    breakOn pattern (c :: cs) = (breakOn pattern cs).map fun (b, a) => (c :: b, a) := by
  rw [breakOn, stripStart_eq_none.2 h]

theorem breakOn_eq_none : breakOn pattern cs = none ↔ ¬ pattern <:+: cs := by
  induction cs with
  | nil => cases pattern <;> simp [breakOn]
  | cons c cs ih =>
    rw [List.infix_cons_iff, not_or, ← ih]
    by_cases hpre : pattern <+: c :: cs
    · obtain ⟨rest, hr⟩ := hpre
      rw [breakOn_eq_some_nil (List.cons_ne_nil c cs) hr.symm]
      simp [← hr]
    · rw [breakOn_cons_eq_map hpre, Option.map_eq_none_iff]
      simp only [hpre, not_false_eq_true, true_and]

/-- A character that the pattern does not have adds no occurrence. -/
theorem breakOn_concat_eq_none {c : Char} (hc : c ∉ pattern) (h : breakOn pattern cs = none) :
    breakOn pattern (cs ++ [c]) = none := by
  rw [breakOn_eq_none] at h ⊢
  intro hinfix
  rcases List.infix_concat_iff.1 hinfix with hsuffix | hinfix
  · rcases List.suffix_concat_iff.1 hsuffix with rfl | ⟨front, rfl, -⟩
    · exact h List.nil_infix
    · exact hc (by simp)
  · exact h hinfix

/-- A text in which a pattern is found is at least as long as the pattern. -/
theorem length_le_of_breakOn (h : breakOn pattern cs = some (before, after)) :
    pattern.length ≤ cs.length := by
  rw [append_of_breakOn h, List.length_append, List.length_append]
  omega

/-- Whatever stands behind an occurrence, it is the first one. -/
theorem breakOn_append_pattern (hp : pattern ≠ []) (h : breakOn pattern cs = some (before, after))
    (rest : List Char) : breakOn pattern (before ++ pattern ++ rest) = some (before, rest) := by
  induction cs generalizing before with
  | nil =>
    have hlength := length_le_of_breakOn h
    exact absurd (List.length_eq_zero_iff.1 (Nat.le_zero.1 hlength)) hp
  | cons c cs ih =>
    by_cases hpre : pattern <+: c :: cs
    · obtain ⟨tail, ht⟩ := hpre
      rw [breakOn_eq_some_nil (List.cons_ne_nil c cs) ht.symm] at h
      obtain ⟨rfl, rfl⟩ : [] = before ∧ tail = after := by simpa using h
      exact breakOn_eq_some_nil (by simp [hp]) rfl
    · rw [breakOn_cons_eq_map hpre] at h
      obtain ⟨⟨b, a⟩, hb, he⟩ := Option.map_eq_some_iff.1 h
      obtain ⟨rfl, rfl⟩ : c :: b = before ∧ a = after := by simpa using he
      -- The occurrence behind `c` leaves no room for one that reaches into `rest`.
      have hcs : c :: (b ++ pattern) <+: c :: cs := by
        rw [append_of_breakOn hb]
        exact List.cons_prefix_cons.2 ⟨rfl, List.prefix_append _ _⟩
      have hnot : ¬ pattern <+: c :: (b ++ pattern ++ rest) := fun hpre' =>
        hpre ((List.prefix_of_prefix_length_le hpre' (List.prefix_append (c :: (b ++ pattern)) rest)
          (by simp only [List.length_cons, List.length_append]; omega)).trans hcs)
      rw [List.cons_append, List.cons_append, breakOn_cons_eq_map hnot, ih hb]
      rfl

theorem breakOn_append_of_eq_some (hp : pattern ≠ []) (h : breakOn pattern cs = some (before, after))
    (rest : List Char) : breakOn pattern (cs ++ rest) = some (before, after ++ rest) := by
  have htext : cs ++ rest = before ++ pattern ++ (after ++ rest) := by
    rw [append_of_breakOn h, List.append_assoc]
  rw [htext, breakOn_append_pattern hp h]

/-- A pattern does not stand across a border behind a character that it does not have. -/
theorem breakOn_append_of_eq_none (hcs : ∀ c ∈ cs.getLast?, c ∉ pattern)
    (h : breakOn pattern cs = none) (rest : List Char) :
    breakOn pattern (cs ++ rest) = (breakOn pattern rest).map fun (b, a) => (cs ++ b, a) := by
  induction cs with
  | nil => simp
  | cons c cs ih =>
    have hpre : ¬ pattern <+: c :: cs := by
      rintro ⟨tail, ht⟩
      rw [breakOn_eq_some_nil (List.cons_ne_nil c cs) ht.symm] at h
      cases h
    have hnot : ¬ pattern <+: c :: (cs ++ rest) := by
      intro hpre'
      rcases List.prefix_or_prefix_of_prefix hpre' (List.prefix_append (c :: cs) rest) with hp | hp
      · exact hpre hp
      · have hlast : (c :: cs).getLast? = some (cs.getLast?.getD c) := List.getLast?_cons
        exact hcs _ hlast (hp.subset (List.mem_of_getLast? hlast))
    rw [breakOn_cons_eq_map hpre, Option.map_eq_none_iff] at h
    have htail : ∀ d ∈ cs.getLast?, d ∉ pattern := by
      intro d hd
      refine hcs d ?_
      rw [List.getLast?_cons, Option.mem_def.1 hd]
      rfl
    rw [List.cons_append, breakOn_cons_eq_map hnot, ih htail h]
    simp [Option.map_map, Function.comp_def]

theorem notMem_of_breakAt {d : Char} (h : breakAt d cs = some (before, after)) : d ∉ before := by
  unfold breakAt at h
  split at h
  · cases h
  · cases h
    intro hd
    simpa using List.mem_takeWhile_imp hd

theorem breakAt_eq_none {d : Char} : breakAt d cs = none ↔ d ∉ cs := by
  unfold breakAt
  split
  · rename_i h
    rw [List.dropWhile_eq_nil_iff] at h
    exact iff_of_true rfl fun hd => by simpa using h d hd
  · rename_i c rest h
    have hc : c = d := by simpa [h] using List.head?_dropWhile_not (· != d) cs
    have hmem : c ∈ cs := (List.dropWhile_suffix _).subset (h ▸ List.mem_cons_self)
    simpa [hc] using hmem

theorem breakAt_append_cons {d : Char} (h : d ∉ before) (after : List Char) :
    breakAt d (before ++ d :: after) = some (before, after) := by
  have hbefore : ∀ c ∈ before, (c != d) = true := fun c hc => bne_iff_ne.2 fun heq => h (heq ▸ hc)
  simp [breakAt, List.dropWhile_append_of_pos hbefore, List.takeWhile_append_of_pos hbefore]

theorem breakAt_append_of_notMem {d : Char} (h : d ∉ before) (rest : List Char) :
    breakAt d (before ++ rest) = (breakAt d rest).map fun (b, a) => (before ++ b, a) := by
  have hbefore : ∀ c ∈ before, (c != d) = true := fun c hc => bne_iff_ne.2 (ne_of_mem_of_not_mem hc h)
  rw [breakAt, breakAt, List.dropWhile_append_of_pos hbefore, List.takeWhile_append_of_pos hbefore]
  cases rest.dropWhile (· != d) <;> rfl

theorem breakAtLast_eq_some {d : Char} :
    breakAtLast d cs = some (before, after) ↔ cs = before ++ d :: after ∧ d ∉ after := by
  unfold breakAtLast
  constructor
  · intro h
    obtain ⟨⟨a, b⟩, hbreak, heq⟩ := Option.map_eq_some_iff.1 h
    obtain ⟨rfl, rfl⟩ := Prod.mk.inj heq
    refine ⟨?_, fun hd => notMem_of_breakAt hbreak (List.mem_reverse.1 hd)⟩
    have hcs := congrArg List.reverse (append_of_breakAt hbreak)
    simpa using hcs
  · rintro ⟨rfl, hd⟩
    have hreverse : (before ++ d :: after).reverse = after.reverse ++ d :: before.reverse := by simp
    rw [hreverse, breakAt_append_cons (by simpa using hd)]
    simp

end ForwardShading.Text
