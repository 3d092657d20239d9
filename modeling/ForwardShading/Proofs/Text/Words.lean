import ForwardShading.Text.Words
import Mathlib.Data.List.TakeWhile

/-!
# Words of a text

The words of a text written in a row are read back as they are (`words_collapse`), so a text with its
white space collapsed says all that is read off the text's words.  White space parts a text into its
words (`words_append_gap`), and what is left of it between two words is one space or nothing
(`collapse_append`).
-/

namespace ForwardShading.Text

theorem unwords_cons {ws : List (List Char)} (h : ws ≠ []) (w : List Char) :
    unwords (w :: ws) = w ++ ' ' :: unwords ws := by
  obtain ⟨v, vs, rfl⟩ := List.exists_cons_of_ne_nil h
  rw [unwords, List.intercalate_cons_cons, List.append_assoc]
  rfl

/-- The last words may be put together first. -/
theorem unwords_append {rest : List (List Char)} (h : rest ≠ []) (ws : List (List Char)) :
    unwords (ws ++ rest) = unwords (ws ++ [unwords rest]) := by
  induction ws with
  | nil => exact (List.append_nil _).symm
  | cons w ws ih =>
    rw [List.cons_append, List.cons_append, unwords_cons (by simp [h]), unwords_cons (by simp), ih]

theorem unwords_concat_inj {ws : List (List Char)} {w w' : List Char}
    (h : unwords (ws ++ [w]) = unwords (ws ++ [w'])) : w = w' := by
  induction ws with
  | nil => simpa [unwords] using h
  | cons v vs ih =>
    rw [List.cons_append, List.cons_append, unwords_cons (by simp), unwords_cons (by simp)] at h
    exact ih (List.cons.inj (List.append_cancel_left h)).2

/-! ## Reading words back -/

theorem isWhite_of_mem_splitOnP {cs w : List Char} (h : w ∈ cs.splitOnP isWhite) :
    ∀ c ∈ w, isWhite c = false := by
  induction cs generalizing w with
  | nil => simp_all [List.splitOnP_nil]
  | cons c cs ih =>
    rw [List.splitOnP_cons_eq_if_modifyHead] at h
    split at h
    · rcases List.mem_cons.1 h with rfl | h
      · simp
      · exact ih h
    · rename_i hc
      obtain ⟨v, vs, hvs⟩ := List.exists_cons_of_ne_nil (List.splitOnP_ne_nil isWhite cs)
      rw [hvs, List.modifyHead_cons] at h
      rw [hvs] at ih
      rcases List.mem_cons.1 h with rfl | h
      · exact List.forall_mem_cons.2 ⟨by simpa using hc, ih List.mem_cons_self⟩
      · exact ih (List.mem_cons_of_mem v h)

/-- Words that no white space stands in. -/
def AreWords (ws : List (List Char)) : Prop :=
  ∀ w ∈ ws, w ≠ [] ∧ ∀ c ∈ w, isWhite c = false

theorem areWords_words (cs : List Char) : AreWords (words cs) := by
  intro w hw
  obtain ⟨hw, hne⟩ := List.mem_filter.1 hw
  exact ⟨by simpa using hne, isWhite_of_mem_splitOnP hw⟩

theorem words_unwords {ws : List (List Char)} (h : AreWords ws) : words (unwords ws) = ws := by
  induction ws with
  | nil => rfl
  | cons w ws ih =>
    obtain ⟨⟨hne, hw⟩, hws⟩ := List.forall_mem_cons.1 h
    have hkept : ∀ rest : List (List Char),
        (w :: rest).filter (!·.isEmpty) = w :: rest.filter (!·.isEmpty) :=
      fun rest => List.filter_cons_of_pos (by simpa using hne)
    cases ws with
    | nil =>
      show ((unwords [w]).splitOnP isWhite).filter (!·.isEmpty) = [w]
      rw [unwords, List.intercalate_singleton, List.splitOnP_eq_singleton hw, hkept, List.filter_nil]
    | cons v vs =>
      rw [unwords_cons (List.cons_ne_nil v vs), words,
        List.splitOnP_append_cons_of_forall_mem hw ' ' (by decide), hkept]
      exact congrArg (w :: ·) (ih hws)

theorem words_collapse (cs : List Char) : words (collapse cs) = words cs :=
  words_unwords (areWords_words cs)

theorem collapse_collapse (cs : List Char) : collapse (collapse cs) = collapse cs :=
  congrArg unwords (words_collapse cs)

/-! ## White space between words -/

/-- Holds of texts of nothing but white space. -/
def IsGap (gap : List Char) : Prop :=
  ∀ c ∈ gap, isWhite c = true

/-- Holds of texts without white space, which are not empty. -/
def IsWord (w : List Char) : Prop :=
  w ≠ [] ∧ ∀ c ∈ w, isWhite c = false

/-- Holds of texts that neither begin with white space nor are empty. -/
def StartsWord (cs : List Char) : Prop :=
  ∃ c rest, cs = c :: rest ∧ isWhite c = false

instance (gap : List Char) : Decidable (IsGap gap) :=
  decidable_of_iff (gap.all isWhite = true) List.all_eq_true

instance (w : List Char) : Decidable (IsWord w) :=
  decidable_of_iff ((!w.isEmpty && w.all (!isWhite ·)) = true) (by simp [IsWord])

theorem isGap_nil : IsGap [] :=
  nofun

theorem isWord_singleton {c : Char} (h : isWhite c = false) : IsWord [c] :=
  ⟨List.cons_ne_nil c [], by simpa using h⟩

theorem startsWord_cons {c : Char} (h : isWhite c = false) (rest : List Char) :
    StartsWord (c :: rest) :=
  ⟨c, rest, rfl, h⟩

theorem IsWord.startsWord {w : List Char} (h : IsWord w) (rest : List Char) :
    StartsWord (w ++ rest) := by
  obtain ⟨c, cs, rfl⟩ := List.exists_cons_of_ne_nil h.1
  exact ⟨c, cs ++ rest, rfl, h.2 c List.mem_cons_self⟩

/-- White space parts the words in front of it from those behind it. -/
theorem words_append_cons {c : Char} (hc : isWhite c = true) (cs rest : List Char) :
    words (cs ++ c :: rest) = words cs ++ words rest := by
  rw [words, List.splitOnP_append_cons cs rest hc, List.filter_append]
  rfl

theorem words_gap_append {gap : List Char} (h : IsGap gap) (rest : List Char) :
    words (gap ++ rest) = words rest := by
  induction gap with
  | nil => rfl
  | cons c gap ih =>
    obtain ⟨hc, hgap⟩ := List.forall_mem_cons.1 h
    exact (words_append_cons hc [] (gap ++ rest)).trans (ih hgap)

theorem words_append_gap {gap : List Char} (h : IsGap gap) (hne : gap ≠ []) (cs rest : List Char) :
    words (cs ++ (gap ++ rest)) = words cs ++ words rest := by
  obtain ⟨c, gap, rfl⟩ := List.exists_cons_of_ne_nil hne
  obtain ⟨hc, hgap⟩ := List.forall_mem_cons.1 h
  rw [List.cons_append, words_append_cons hc, words_gap_append hgap]

theorem words_concat_gap {gap : List Char} (h : IsGap gap) (cs : List Char) :
    words (cs ++ gap) = words cs := by
  by_cases hne : gap = []
  · rw [hne, List.append_nil]
  · rw [← List.append_nil gap, words_append_gap h hne]
    exact List.append_nil _

theorem words_of_isWord {w : List Char} (h : IsWord w) : words w = [w] := by
  rw [words, List.splitOnP_eq_singleton h.2]
  exact List.filter_cons_of_pos (by simpa using h.1)

theorem splitOnP_word_append {w cs v : List Char} {vs : List (List Char)}
    (hw : ∀ c ∈ w, isWhite c = false) (h : cs.splitOnP isWhite = v :: vs) :
    (w ++ cs).splitOnP isWhite = (w ++ v) :: vs := by
  induction w with
  | nil => exact h
  | cons c w ih =>
    obtain ⟨hc, hw⟩ := List.forall_mem_cons.1 hw
    rw [List.cons_append, List.splitOnP_cons_eq_if_modifyHead, if_neg (by simp [hc]), ih hw,
      List.modifyHead_cons]
    rfl

/-- A word in front of another, without white space between them, is the beginning of that one. -/
theorem words_word_append {w rest : List Char} (hw : ∀ c ∈ w, isWhite c = false)
    (h : StartsWord rest) : ∃ v vs, words rest = v :: vs ∧ words (w ++ rest) = (w ++ v) :: vs := by
  obtain ⟨c, cs, rfl, hc⟩ := h
  obtain ⟨v, vs, hvs⟩ := List.exists_cons_of_ne_nil (List.splitOnP_ne_nil isWhite cs)
  have hrest : (c :: cs).splitOnP isWhite = (c :: v) :: vs :=
    splitOnP_word_append (w := [c]) (by simpa using hc) hvs
  refine ⟨c :: v, vs.filter (!·.isEmpty), ?_, ?_⟩
  · rw [words, hrest, List.filter_cons_of_pos rfl]
  · rw [words, splitOnP_word_append hw hrest, List.filter_cons_of_pos (by simp)]

/-- What is left of white space between two words. -/
def narrowed (gap : List Char) : List Char :=
  if gap = [] then [] else [' ']

theorem isGap_narrowed (gap : List Char) : IsGap (narrowed gap) := by
  unfold narrowed
  split
  · exact isGap_nil
  · exact List.forall_mem_singleton.2 (by decide)

theorem collapse_append {w gap rest : List Char} (hw : IsWord w) (hgap : IsGap gap)
    (h : StartsWord rest) : collapse (w ++ (gap ++ rest)) = w ++ (narrowed gap ++ collapse rest) := by
  obtain ⟨v, vs, hrest, hmerged⟩ := words_word_append hw.2 h
  unfold collapse narrowed
  by_cases hne : gap = []
  · rw [hne, List.nil_append, if_pos rfl, List.nil_append, hmerged, hrest]
    cases vs with
    | nil => simp [unwords]
    | cons v' vs =>
      rw [unwords_cons (List.cons_ne_nil v' vs), unwords_cons (List.cons_ne_nil v' vs),
        List.append_assoc]
  · rw [if_neg hne, words_append_gap hgap hne, words_of_isWord hw, hrest, List.singleton_append,
      unwords_cons (List.cons_ne_nil v vs)]
    rfl

theorem collapse_of_isWord {w : List Char} (h : IsWord w) : collapse w = w := by
  rw [collapse, words_of_isWord h, unwords, List.intercalate_singleton]

/-! ## Parts in a row -/

/-- Holds of a text that has some parts in a row: with white space between them, and any in front of the
first and behind the last. -/
inductive Spaced : List (List Char) → List Char → Prop
  | last {lead part trail : List Char} (hlead : IsGap lead) (htrail : IsGap trail) :
      Spaced [part] (lead ++ (part ++ trail))
  | cons {lead part gap rest : List Char} {parts : List (List Char)} (hlead : IsGap lead)
      (hgap : IsGap gap) (hne : gap ≠ []) (h : Spaced parts rest) :
      Spaced (part :: parts) (lead ++ (part ++ (gap ++ rest)))

theorem Spaced.words_eq {parts : List (List Char)} {text : List Char} (h : Spaced parts text) :
    words text = parts.flatMap words := by
  induction h with
  | last hlead htrail =>
    rw [words_gap_append hlead, words_concat_gap htrail, List.flatMap_singleton]
  | cons hlead hgap hne h ih =>
    rw [words_gap_append hlead, words_append_gap hgap hne, ih, List.flatMap_cons]

theorem mem_unwords {ws : List (List Char)} {c : Char} (h : c ∈ unwords ws) :
    c = ' ' ∨ ∃ w ∈ ws, c ∈ w := by
  induction ws with
  | nil => cases h
  | cons w ws ih =>
    by_cases hws : ws = []
    · subst hws
      exact .inr ⟨w, List.mem_cons_self, by simpa [unwords] using h⟩
    · rw [unwords_cons hws] at h
      rcases List.mem_append.1 h with h | h
      · exact .inr ⟨w, List.mem_cons_self, h⟩
      · rcases List.mem_cons.1 h with rfl | h
        · exact .inl rfl
        · exact (ih h).imp_right fun ⟨v, hv, hc⟩ => ⟨v, List.mem_cons_of_mem w hv, hc⟩

theorem startsWord_unwords {ws : List (List Char)} (h : AreWords ws) (hne : ws ≠ []) :
    StartsWord (unwords ws) := by
  obtain ⟨w, ws, rfl⟩ := List.exists_cons_of_ne_nil hne
  have hw : IsWord w := h w List.mem_cons_self
  by_cases hws : ws = []
  · rw [hws, unwords, List.intercalate_singleton]
    simpa using hw.startsWord []
  · rw [unwords_cons hws]
    exact hw.startsWord _

/-! ## Trimming -/

theorem dropWhile_gap_append {gap cs : List Char} (hgap : IsGap gap) (h : StartsWord cs) :
    (gap ++ cs).dropWhile isWhite = cs := by
  obtain ⟨c, rest, rfl, hc⟩ := h
  rw [List.dropWhile_append_of_pos hgap, List.dropWhile_cons_of_neg (by simp [hc])]

theorem trim_eq_of_isWord {lead w trail : List Char} (hlead : IsGap lead) (hw : IsWord w)
    (htrail : IsGap trail) : trim (lead ++ (w ++ trail)) = w := by
  have hreverse : StartsWord w.reverse := by
    have hw' : IsWord w.reverse :=
      ⟨by simpa using hw.1, fun c hc => hw.2 c (List.mem_reverse.1 hc)⟩
    simpa using hw'.startsWord []
  have htrail' : IsGap trail.reverse := fun c hc => htrail c (List.mem_reverse.1 hc)
  rw [trim, trimStart, dropWhile_gap_append hlead (hw.startsWord trail), List.reverse_append,
    dropWhile_gap_append htrail' hreverse, List.reverse_reverse]

/-- Trimming takes white space off both ends. -/
theorem exists_gaps_trim (cs : List Char) :
    ∃ lead trail, IsGap lead ∧ IsGap trail ∧ cs = lead ++ (trim cs ++ trail) := by
  refine ⟨cs.takeWhile isWhite, ((trimStart cs).reverse.takeWhile isWhite).reverse,
    fun c hc => List.mem_takeWhile_imp hc, fun c hc => List.mem_takeWhile_imp (List.mem_reverse.1 hc),
    ?_⟩
  rw [trim, ← List.reverse_append, List.takeWhile_append_dropWhile, List.reverse_reverse, trimStart,
    List.takeWhile_append_dropWhile]

end ForwardShading.Text
