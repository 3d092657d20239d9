import ForwardShading.Proofs.Glsl.Define

/-!
# Texts with a version line

The version directive comes first in a stage text, but white space and comments may stand in front of
it (`Versioned`).  Generated text goes behind its line where the directive is plain, that is where no
comment stands in front of it and nothing between its hash and its name.  Else generated text goes in
front of all text, and no version directive comes first (`Versioned.inserted_behind`).
-/

namespace ForwardShading.Glsl

open Text

/-- White space or a comment, as they may stand between tokens. -/
inductive Trivia
  | white (c : Char) (h : isWhite c = true)
  | lineComment (inside : List Char) (h : '\n' ∉ inside)
  | blockComment (inside : List Char) (h : occursIn ['*', '/'] inside = false)

namespace Trivia

/-- The text of white space or of a comment with its marks. -/
def text : Trivia → List Char
  | white c _ => [c]
  | lineComment inside _ => '/' :: '/' :: (inside ++ ['\n'])
  | blockComment inside _ => '/' :: '*' :: (inside ++ ['*', '/'])

/-- Whether this is white space and no comment. -/
def isWhite : Trivia → Bool
  | white .. => true
  | lineComment .. | blockComment .. => false

/-- Holds of what may stand inside of a directive. -/
def IsInner : Trivia → Prop
  | white c _ => c = ' ' ∨ c = '\t'
  | lineComment .. => False
  | blockComment .. => True

end Trivia

/-- A text with a version directive in front of all other tokens. -/
structure Versioned where
  lead : List Trivia
  /-- What stands between the hash and the name of the directive. -/
  gap : List Trivia
  /-- The line behind the name. -/
  line : List Char
  /-- The text behind the newline of the line, if there is one. -/
  rest : Option (List Char)
  gap_inner : ∀ t ∈ gap, t.IsInner
  name_end : line.head?.any isWordChar = false
  newline_notMem : '\n' ∉ line

namespace Versioned

/-- The directive from its hash to the end of its line. -/
def directive (v : Versioned) : List Char :=
  '#' :: (v.gap.flatMap Trivia.text ++ "version".toList ++ v.line)

/-- The whole text. -/
def text (v : Versioned) : List Char :=
  v.lead.flatMap Trivia.text ++ v.directive ++ v.rest.elim [] ('\n' :: ·)

/-- The text with a block behind the version line. -/
def withBlock (v : Versioned) (block : List Char) : Versioned :=
  { v with rest := some (block ++ v.rest.getD []) }

/-- No comment stands in front of the directive, and nothing between its hash and its name. -/
def IsPlain (v : Versioned) : Prop :=
  (∀ t ∈ v.lead, t.isWhite = true) ∧ v.gap = []

instance (v : Versioned) : Decidable v.IsPlain :=
  inferInstanceAs (Decidable (_ ∧ _))

/-! ## The front of a text -/

theorem trimStart_text (v : Versioned) :
    trimStart v.text = (v.lead.dropWhile Trivia.isWhite).flatMap Trivia.text ++ v.directive ++
      v.rest.elim [] ('\n' :: ·) := by
  unfold text
  induction v.lead with
  | nil => rfl
  | cons t ts ih =>
    cases t with
    | white c h => exact (List.dropWhile_cons_of_pos h).trans ih
    | lineComment _ _ | blockComment _ _ => rfl

theorem dropWhile_lead_eq_nil {v : Versioned} :
    v.lead.dropWhile Trivia.isWhite = [] ↔ ∀ t ∈ v.lead, t.isWhite = true :=
  List.dropWhile_eq_nil_iff

theorem stripStart_trimStart_text (v : Versioned) :
    stripStart "#version".toList (trimStart v.text) =
      if v.IsPlain then some (v.line ++ v.rest.elim [] ('\n' :: ·)) else none := by
  rw [trimStart_text]
  split_ifs with hplain
  · rw [dropWhile_lead_eq_nil.2 hplain.1, stripStart_eq_some, directive, hplain.2]
    simp
  · cases hlead : v.lead.dropWhile Trivia.isWhite with
    | nil =>
      obtain ⟨t, ts, hgap⟩ := List.exists_cons_of_ne_nil fun hgap =>
        hplain ⟨dropWhile_lead_eq_nil.1 hlead, hgap⟩
      have ht := v.gap_inner t (by simp [hgap])
      rw [directive, hgap]
      cases t with
      | white c h => rcases ht with rfl | rfl <;> rfl
      | lineComment _ _ => cases ht
      | blockComment _ _ => rfl
    | cons t ts =>
      have ht := List.head?_dropWhile_not Trivia.isWhite v.lead
      rw [hlead] at ht
      cases t with
      | white c h => cases ht
      | lineComment _ _ | blockComment _ _ => rfl

theorem newline_notMem_directive {v : Versioned} (h : v.IsPlain) : '\n' ∉ v.directive := by
  simp [directive, h.2, v.newline_notMem]

/-- The white space in front of a plain directive, and the text from the directive on. -/
theorem span_text_of_isPlain {v : Versioned} (h : v.IsPlain) :
    v.text.takeWhile isWhite = v.lead.flatMap Trivia.text ∧
      trimStart v.text = v.directive ++ v.rest.elim [] ('\n' :: ·) := by
  have htrim := v.trimStart_text
  rw [dropWhile_lead_eq_nil.2 h.1, List.flatMap_nil, List.nil_append] at htrim
  refine ⟨?_, htrim⟩
  have hspan : v.text.takeWhile isWhite ++ trimStart v.text = v.text :=
    List.takeWhile_append_dropWhile
  rw [htrim] at hspan
  exact List.append_cancel_right (hspan.trans (List.append_assoc _ _ _))

/-! ## Inserted text -/

theorem splitVersion_of_isPlain {v : Versioned} (h : v.IsPlain) :
    splitVersion v.text =
      (v.lead.flatMap Trivia.text ++ v.directive ++ v.rest.elim [] fun _ => ['\n'],
        v.rest.getD []) := by
  obtain ⟨hlead, htrim⟩ := span_text_of_isPlain h
  have hstrip := v.stripStart_trimStart_text
  rw [if_pos h] at hstrip
  simp only [splitVersion, hstrip]
  cases hrest : v.rest with
  | none =>
    have hbreak : breakAt '\n' (trimStart v.text) = none := by
      rw [htrim, hrest, Option.elim_none, List.append_nil]
      exact breakAt_eq_none.2 (newline_notMem_directive h)
    rw [hbreak, text, hrest]
    rfl
  | some rest =>
    have hbreak : breakAt '\n' (trimStart v.text) = some (v.directive, rest) := by
      rw [htrim, hrest]
      exact breakAt_append_cons (newline_notMem_directive h) rest
    rw [hbreak, hlead]
    rfl

theorem insertAfterVersion_of_isPlain {v : Versioned} (h : v.IsPlain) (block : List Char) :
    insertAfterVersion v.text block = (v.withBlock block).text := by
  rw [insertAfterVersion, splitVersion_of_isPlain h]
  show _ = v.lead.flatMap Trivia.text ++ v.directive ++ '\n' :: (block ++ v.rest.getD [])
  cases v.rest with
  | none =>
    have hdirective : v.directive ≠ [] := List.cons_ne_nil _ _
    have hnewline := ScanState.missingNewline_append hdirective (newline_notMem_directive h)
    simp [hnewline]
  | some rest =>
    have hnewline := ScanState.missingNewline_concat (v.lead.flatMap Trivia.text ++ v.directive)
    simp only [Option.elim_some, hnewline]
    simp

theorem insertAfterVersion_of_not_isPlain {v : Versioned} (h : ¬ v.IsPlain) (block : List Char) :
    insertAfterVersion v.text block = block ++ v.text := by
  have hstrip := v.stripStart_trimStart_text
  rw [if_neg h] at hstrip
  simp only [insertAfterVersion, splitVersion, hstrip]
  rfl

/-- A text with a version directive begins with white space, a comment or the directive. -/
theorem text_front (v : Versioned) :
    (∃ c cs, v.text = c :: cs ∧ (isWhite c = true ∨ c = '/')) ∨
      ∃ c cs, v.text = '#' :: c :: cs ∧ (c = ' ' ∨ c = '\t' ∨ c = '/' ∨ c = 'v') := by
  cases hlead : v.lead with
  | nil =>
    refine .inr ?_
    cases hgap : v.gap with
    | nil => exact ⟨'v', _, by rw [text, hlead, directive, hgap]; rfl, by simp⟩
    | cons t ts =>
      have ht := v.gap_inner t (by simp [hgap])
      cases t with
      | white c h =>
        refine ⟨c, _, by rw [text, hlead, directive, hgap]; rfl, ?_⟩
        rcases ht with rfl | rfl <;> simp
      | lineComment _ _ => cases ht
      | blockComment _ _ => exact ⟨'/', _, by rw [text, hlead, directive, hgap]; rfl, by simp⟩
  | cons t ts =>
    refine .inl ?_
    cases t with
    | white c h => exact ⟨c, _, by rw [text, hlead]; rfl, .inl h⟩
    | lineComment _ _ | blockComment _ _ => exact ⟨'/', _, by rw [text, hlead]; rfl, .inr rfl⟩

theorem text_ne_of_isWordStart (v : Versioned) {cs : List Char}
    (h : cs.head?.any isWordStart = true) : v.text ≠ cs := by
  rintro rfl
  rcases v.text_front with ⟨c, cs, htext, hc⟩ | ⟨c, cs, htext, -⟩
  · have hstart : isWordStart c = true := by simpa [htext] using h
    have hword := isWordChar_of_isWordStart hstart
    rcases hc with hwhite | rfl
    · rw [not_isWordChar_of_isWhite hwhite] at hword
      cases hword
    · exact absurd hword (by decide)
  · rw [htext] at h
    change isWordStart '#' = true at h
    exact absurd h (by decide)

theorem text_ne_of_define (v : Versioned) {defines : List Define} (h : defines ≠ [])
    (cs : List Char) : v.text ≠ defines.flatMap Define.text ++ cs := by
  obtain ⟨d, ds, rfl⟩ := List.exists_cons_of_ne_nil h
  intro heq
  rcases v.text_front with ⟨c, cs, htext, hc⟩ | ⟨c, cs, htext, hc⟩
  · obtain ⟨rfl, -⟩ := List.cons.inj (htext.symm.trans heq)
    exact absurd hc (by decide)
  · obtain ⟨-, htail⟩ := List.cons.inj (htext.symm.trans heq)
    obtain ⟨rfl, -⟩ := List.cons.inj htail
    exact absurd hc (by decide)

/-- Where generated text goes in a text with a version directive.  Behind a plain directive it stands
behind the line.  Else it stands in front of all text, so that no version directive comes first where
defines or a declaration are inserted. -/
theorem inserted_behind (v : Versioned) :
    (∀ defines, defines ≠ [] →
      let lines := defines.flatMap Define.text
      let result := (Define.insertAll defines (String.ofList v.text)).toList
      (v.IsPlain → result = (v.withBlock lines).text) ∧
      (¬ v.IsPlain → result = lines ++ v.text ∧ ∀ w : Versioned, w.text ≠ result)) ∧
    (occursIn marker v.text = false → ∀ block : String,
      let result := (splice (String.ofList v.text) block).toList
      (v.IsPlain → result = (v.withBlock block.toList).text) ∧
      (¬ v.IsPlain → result = block.toList ++ v.text ∧
        (block.toList.head?.any isWordStart → ∀ w : Versioned, w.text ≠ result))) := by
  constructor
  · intro defines hne lines result
    have hresult : result = insertAfterVersion v.text lines := by
      simp only [result, Define.toList_insertAll hne, String.toList_ofList]
      rfl
    rw [hresult]
    refine ⟨fun h => insertAfterVersion_of_isPlain h lines, fun h => ?_⟩
    rw [insertAfterVersion_of_not_isPlain h]
    exact ⟨rfl, fun w => w.text_ne_of_define hne v.text⟩
  · intro hmarker block result
    have hnone : breakOn marker v.text = none := by
      rwa [occursIn, Option.isSome_eq_false_iff, Option.isNone_iff_eq_none] at hmarker
    have hresult : result = insertAfterVersion v.text block.toList := by
      simp only [result, splice, String.toList_ofList, hnone]
    rw [hresult]
    refine ⟨fun h => insertAfterVersion_of_isPlain h block.toList, fun h => ?_⟩
    rw [insertAfterVersion_of_not_isPlain h]
    refine ⟨rfl, fun hstart w => w.text_ne_of_isWordStart ?_⟩
    cases hblock : block.toList with
    | nil => simp [hblock] at hstart
    | cons c cs => simpa [hblock] using hstart

/-- A text of a version line alone, with a blank in front and no newline behind. -/
def bare : Versioned where
  lead := [.white ' ' (by decide)]
  gap := []
  line := " 450".toList
  rest := none
  gap_inner := by simp
  name_end := by decide
  newline_notMem := by decide

/-- Behind the bare version line a newline is put, and then the defines or the block. -/
theorem inserted_behind_bare :
    bare.text = " #version 450".toList ∧ bare.IsPlain ∧
      (∀ defines, defines ≠ [] →
        (Define.insertAll defines (String.ofList bare.text)).toList =
          " #version 450\n".toList ++ defines.flatMap Define.text) ∧
      ∀ block : String, (splice (String.ofList bare.text) block).toList =
        " #version 450\n".toList ++ block.toList := by
  have hplain : bare.IsPlain := by decide
  have htext : ∀ block, (bare.withBlock block).text = " #version 450\n".toList ++ block :=
    fun block => congrArg (" #version 450\n".toList ++ ·) (List.append_nil block)
  obtain ⟨hdefines, hblock⟩ := bare.inserted_behind
  refine ⟨rfl, hplain, fun defines hne => ?_, fun block => ?_⟩
  · rw [(hdefines defines hne).1 hplain, htext]
  · rw [(hblock (by decide) block).1 hplain, htext]

/-- A text with a comment in front of its version directive. -/
def commented : Versioned where
  lead := [.lineComment " lit".toList (by decide)]
  gap := []
  line := " 450".toList
  rest := some "void main() {}\n".toList
  gap_inner := by simp
  name_end := by decide
  newline_notMem := by decide

theorem not_inserted_behind_commented :
    (¬ ∀ (v : Versioned) (defines : List Define), defines ≠ [] →
      (Define.insertAll defines (String.ofList v.text)).toList =
        (v.withBlock (defines.flatMap Define.text)).text) ∧
    ¬ ∀ v : Versioned, occursIn marker v.text = false → ∀ block : String,
      (splice (String.ofList v.text) block).toList = (v.withBlock block.toList).text :=
  ⟨fun h => absurd (h commented [⟨"FOG", ""⟩] (by decide)) (by decide +kernel),
    fun h => absurd (h commented (by decide +kernel) "uniform float a;\n") (by decide +kernel)⟩

end Versioned

end ForwardShading.Glsl
