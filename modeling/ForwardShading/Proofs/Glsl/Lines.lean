import ForwardShading.Glsl.Version
import ForwardShading.Proofs.Glsl.Dissection

/-!
# Lines that declare nothing

What a stage text declares is found by a scan from its start.  The scan passes over the version line
(`ScanState.exists_passes_version`) and over lines of directives
(`ScanState.exists_passes_directive`) without a declaration.  What comes behind is read as if they
were not there, but for what they leave: the counts of brackets, and a block comment that they may
leave open or close.
-/

namespace ForwardShading.Glsl

open Text

theorem scan_nil (p : Position) : scan p [] = [] := by
  rw [scan]
  split
  · rename_i h
    rw [Position.statement_eq_absent rfl] at h
    cases h
  · rename_i h
    rw [Position.statement_eq_absent rfl] at h
    cases h
  · rfl

theorem scan_cons {p : Position} {c : Char} {cs : List Char} (h : p.statement (c :: cs) = .absent) :
    let k := Lexeme.classify p.lineStart c cs
    scan p (c :: cs) = .kept (c :: (k.split cs).1) :: scan (p.after c k) (k.split cs).2 := by
  rw [scan]
  split <;> simp_all

/-! ## White space and the ends of lines -/

section White

variable {c : Char}

theorem isWordChar_bounds (hc : isWordChar c = true) : 0x30 ≤ c.toNat ∧ c.toNat ≤ 0x7A := by
  delta isWordChar Char.isAlphanum Char.isAlpha Char.isUpper Char.isLower Char.isDigit at hc
  simp only [Bool.or_eq_true, Bool.and_eq_true, decide_eq_true_eq, beq_iff_eq, ge_iff_le,
    UInt32.le_iff_toNat_le] at hc
  rcases hc with hc | rfl
  · simp only [Char.reduceVal, UInt32.reduceToNat, Char.toNat_val] at hc
    omega
  · decide

theorem isWordChar_of_isWordStart (hc : isWordStart c = true) : isWordChar c = true := by
  simp only [isWordStart, isWordChar, Char.isAlphanum, Bool.or_eq_true] at hc ⊢
  rcases hc with halpha | hscore
  · exact .inl (.inl halpha)
  · exact .inr hscore

theorem not_isWordChar_of_isWhite (hc : isWhite c = true) : isWordChar c = false := by
  refine Bool.eq_false_iff.2 fun hword => ?_
  have hbounds := isWordChar_bounds hword
  simp only [isWhite, Bool.or_eq_true, Bool.and_eq_true, decide_eq_true_eq, beq_iff_eq] at hc
  omega

/-- No word begins behind blanks in front of a directive, even behind other white space. -/
theorem takeWhile_white_directive {ws : List Char} (hws : ∀ c ∈ ws, isWhite c = true)
    (rest : List Char) : ((ws ++ '#' :: rest).dropWhile isBlank).takeWhile isWordChar = [] := by
  induction ws with
  | nil => rfl
  | cons w ws ih =>
    rw [List.cons_append]
    by_cases hblank : isBlank w = true
    · rw [List.dropWhile_cons_of_pos hblank, ih fun c hc => hws c (List.mem_cons_of_mem w hc)]
    · have hword := not_isWordChar_of_isWhite (hws w List.mem_cons_self)
      rw [List.dropWhile_cons_of_neg hblank, List.takeWhile_cons_of_neg (by simp [hword])]

theorem dropWhile_append_newline {f : Char → Bool} (hf : f '\n' = false) (as bs : List Char) :
    (as ++ '\n' :: bs).dropWhile f = as.dropWhile f ++ '\n' :: bs := by
  induction as with
  | nil => simp [hf]
  | cons a as ih => by_cases ha : f a = true <;> simp [ha, ih]

namespace Lexeme

/-- The lexeme that white space begins, which is no longer than one character. -/
def ofWhite (c : Char) : Lexeme :=
  if c = '\n' then .newline else if isBlank c then .blank else .mark

theorem split_ofWhite (c : Char) (cs : List Char) : (ofWhite c).split cs = ([], cs) := by
  unfold ofWhite
  split_ifs <;> rfl

theorem classify_white (hc : isWhite c = true) (lineStart : Bool) (cs : List Char) :
    classify lineStart c cs = ofWhite c := by
  have hslash : c ≠ '/' := by
    rintro rfl
    exact absurd hc (by decide)
  have hhash : c ≠ '#' := by
    rintro rfl
    exact absurd hc (by decide)
  have hword : isWordStart c = false := by
    rw [Bool.eq_false_iff]
    intro hstart
    have hnot := not_isWordChar_of_isWhite hc
    rw [isWordChar_of_isWordStart hstart] at hnot
    cases hnot
  simp [classify, ofWhite, hslash, hhash, hword]

/-- No lexeme but a comment goes over the end of a line. -/
theorem split_append_newline {k : Lexeme} (hk : k ≠ .blockComment) (cs rest : List Char) :
    (k.split (cs ++ '\n' :: rest)).2 = (k.split cs).2 ++ '\n' :: rest := by
  cases k with
  | newline | blank | mark => rfl
  | lineComment | directive | word => exact dropWhile_append_newline (by decide) cs rest
  | blockComment => exact absurd rfl hk

theorem classify_append_newline (lineStart : Bool) (c : Char) (cs rest : List Char) :
    classify lineStart c (cs ++ '\n' :: rest) = classify lineStart c (cs ++ ['\n']) := by
  cases cs <;> rfl

end Lexeme

end White

/-! ## Passages -/

/-- What a scan has come to: text in which a statement may begin, or the inside of a block comment.
Either way the position is the one before. -/
inductive ScanState
  | text (p : Position)
  | comment (p : Position)
  deriving DecidableEq, Repr

namespace ScanState

/-- What the text behind a point declares. -/
def declarations : ScanState → List Char → Except DeclarationError (List Declaration)
  | text p, cs => Piece.declarations (scan p cs)
  | comment p, cs =>
    match breakOn ['*', '/'] cs with
    | some (_, rest) => Piece.declarations (scan { p with lineStart := false } rest)
    | none => .ok []

/-- The scan passes over a text, whatever stands behind it, and finds no declaration. -/
def Passes (s : ScanState) (cs : List Char) (t : ScanState) : Prop :=
  ∀ rest, s.declarations (cs ++ rest) = t.declarations rest

theorem Passes.refl (s : ScanState) : s.Passes [] s :=
  fun _ => rfl

theorem Passes.append {s t u : ScanState} {as bs : List Char} (h : s.Passes as t)
    (h' : t.Passes bs u) : s.Passes (as ++ bs) u := by
  intro rest
  rw [List.append_assoc, h, h']

section Steps

variable {p : Position} {c : Char} {cs : List Char}

theorem declarations_cons (h : p.statement (c :: cs) = .absent) :
    let k := Lexeme.classify p.lineStart c cs
    (text p).declarations (c :: cs) = (text (p.after c k)).declarations (k.split cs).2 := by
  intro k
  rw [declarations, scan_cons h]
  rfl

theorem declarations_cons_comment (h : p.statement ('/' :: '*' :: cs) = .absent) :
    (text p).declarations ('/' :: '*' :: cs) = (comment p).declarations cs := by
  rw [declarations_cons h]
  have hk : Lexeme.classify p.lineStart '/' ('*' :: cs) = .blockComment := rfl
  simp only [hk, Lexeme.split, Lexeme.takeComment, declarations, List.drop_one, List.tail_cons]
  cases breakOn ['*', '/'] cs with
  | none => rw [scan_nil]; rfl
  | some parts => rfl

theorem passes_newline (p : Position) :
    (text p).Passes ['\n'] (text { p with lineStart := true }) := by
  intro rest
  exact declarations_cons (Position.statement_eq_absent rfl)

/-- A comment goes on over a line that does not close it. -/
theorem passes_comment {line : List Char} (h : breakOn ['*', '/'] line = none) :
    (comment p).Passes (line ++ ['\n']) (comment p) := by
  intro rest
  have hborder : ∀ c ∈ (line ++ ['\n']).getLast?, c ∉ ['*', '/'] := by simp
  simp only [declarations]
  rw [breakOn_append_of_eq_none hborder (breakOn_concat_eq_none (by decide) h)]
  cases breakOn ['*', '/'] rest <;> rfl

theorem declarations_comment_of_closed {line inside after : List Char}
    (h : breakOn ['*', '/'] line = some (inside, after)) (rest : List Char) :
    (comment p).declarations (line ++ rest) =
      (text { p with lineStart := false }).declarations (after ++ rest) := by
  simp only [declarations]
  rw [breakOn_append_of_eq_some (by decide) h]

end Steps

section Lines

variable {p : Position} {c : Char} {cs line : List Char}

/-- Holds where a line begins, or inside of a comment. -/
def AtLineStart : ScanState → Prop
  | text p => p.lineStart = true
  | comment _ => True

/-- Holds where no statement may begin before the next line. -/
def InLine : ScanState → Prop
  | text p => p.lineStart = false
  | comment _ => True

theorem inLine_after (hp : p.lineStart = false) {k : Lexeme} (hk : k ≠ .newline) :
    (text (p.after c k)).InLine := by
  cases k with
  | newline => exact absurd rfl hk
  | blank | lineComment | directive => exact hp
  | blockComment | word | mark => rfl

/-! How the passage over a line begins, where no statement can begin: with the end of a comment, with
the start of one, or with another lexeme. -/

theorem Passes.close_comment {t : ScanState} {inside after : List Char}
    (h : breakOn ['*', '/'] line = some (inside, after))
    (hpass : (text { p with lineStart := false }).Passes (after ++ ['\n']) t) :
    (comment p).Passes (line ++ ['\n']) t := by
  intro rest
  rw [List.append_assoc, declarations_comment_of_closed h, ← List.append_assoc, hpass]

theorem Passes.open_comment {t : ScanState} (hp : p.lineStart = false)
    (hpass : (comment p).Passes cs t) : (text p).Passes ('/' :: '*' :: cs) t := by
  intro rest
  rw [← hpass rest]
  exact declarations_cons_comment (Position.statement_eq_absent_of_lineStart hp _)

theorem Passes.cons_lexeme {t : ScanState} {k : Lexeme} (hp : p.lineStart = false)
    (hk : Lexeme.classify p.lineStart c (cs ++ ['\n']) = k) (hcomment : k ≠ .blockComment)
    (hpass : (text (p.after c k)).Passes ((k.split cs).2 ++ ['\n']) t) :
    (text p).Passes (c :: cs ++ ['\n']) t := by
  intro rest
  have hstep := declarations_cons
    (Position.statement_eq_absent_of_lineStart hp (c :: (cs ++ '\n' :: rest)))
  simp only [Lexeme.classify_append_newline, hk, Lexeme.split_append_newline hcomment] at hstep
  rw [← hpass rest]
  simpa using hstep

/-- No statement begins in a line behind its start. -/
theorem exists_passes_line (s : ScanState) (hs : s.InLine) (line : List Char) (h : '\n' ∉ line) :
    ∃ t : ScanState, t.AtLineStart ∧ s.Passes (line ++ ['\n']) t := by
  -- A lexeme takes what it needs of the line, so the induction is on the length of what is left.
  induction hn : line.length using Nat.strong_induction_on generalizing s line with
  | _ n ih =>
    subst hn
    cases s with
    | comment p =>
      cases hclosed : breakOn ['*', '/'] line with
      | none => exact ⟨comment p, trivial, passes_comment hclosed⟩
      | some parts =>
        obtain ⟨inside, after⟩ := parts
        have hline := append_of_breakOn hclosed
        have hlength : after.length < line.length := by
          simp only [hline, List.length_append, List.length_cons]
          omega
        obtain ⟨t, ht, hpass⟩ := ih _ hlength (text { p with lineStart := false }) rfl after
          (fun hm => h (by simp [hline, hm])) rfl
        exact ⟨t, ht, hpass.close_comment hclosed⟩
    | text p =>
      cases line with
      | nil => exact ⟨text { p with lineStart := true }, rfl, passes_newline p⟩
      | cons c cs =>
        generalize hk : Lexeme.classify p.lineStart c (cs ++ ['\n']) = k
        by_cases hcomment : k = .blockComment
        · obtain ⟨rfl, hstar⟩ := Lexeme.eq_of_classify_eq_blockComment (hk.trans hcomment)
          obtain ⟨cs, rfl⟩ : ∃ cs', cs = '*' :: cs' := by
            cases cs with
            | nil => cases hstar
            | cons d cs' => exact ⟨cs', by simpa using hstar⟩
          obtain ⟨t, ht, hpass⟩ := ih cs.length (by simp only [List.length_cons]; omega)
            (comment p) trivial cs (fun hm => h (by simp [hm])) rfl
          exact ⟨t, ht, hpass.open_comment hs⟩
        · have hnewline : k ≠ .newline := by
            rintro rfl
            exact h (by simp [Lexeme.eq_of_classify_eq_newline hk])
          have hrest : '\n' ∉ (k.split cs).2 := fun hm =>
            h (by rw [← k.split_append cs]; simp [hm])
          obtain ⟨t, ht, hpass⟩ := ih _ (Nat.lt_succ_of_le (k.length_split_le cs))
            (text (p.after c k)) (inLine_after hs hnewline) _ hrest rfl
          exact ⟨t, ht, hpass.cons_lexeme hs hk hcomment⟩

/-! ## Directives -/

theorem passes_directive (hp : p.lineStart = true) (h : '\n' ∉ line) :
    (text p).Passes ('#' :: line ++ ['\n']) (text p) := by
  intro rest
  have hstep := @declarations_cons p '#' (line ++ '\n' :: rest) (Position.statement_eq_absent rfl)
  have hk : Lexeme.classify p.lineStart '#' (line ++ '\n' :: rest) = .directive := by
    rw [hp]
    rfl
  have hline : line.dropWhile (· != '\n') = [] := by
    rw [List.dropWhile_eq_nil_iff]
    exact fun c hc => by simpa using ne_of_mem_of_not_mem hc h
  have hsplit : (Lexeme.directive.split (line ++ '\n' :: rest)).2 = '\n' :: rest := by
    rw [Lexeme.split_append_newline (by decide), Lexeme.split, hline]
    rfl
  simp only [hk, hsplit] at hstep
  have hnewline := passes_newline p rest
  rw [← hp] at hnewline
  simpa using hstep.trans hnewline

theorem exists_passes_directive {s : ScanState} (hs : s.AtLineStart) (h : '\n' ∉ line) :
    ∃ t : ScanState, t.AtLineStart ∧ s.Passes ('#' :: line ++ ['\n']) t := by
  cases s with
  | text p => exact ⟨text p, hs, passes_directive hs h⟩
  | comment p =>
    exact exists_passes_line (comment p) trivial ('#' :: line) (by simpa using h)

/-- A directive without a slash leaves the scan where it was, also inside of a comment. -/
theorem passes_directive_of_notMem {s : ScanState} (hs : s.AtLineStart) (h : '\n' ∉ line)
    (hslash : '/' ∉ line) : s.Passes ('#' :: line ++ ['\n']) s := by
  cases s with
  | text p => exact passes_directive hs h
  | comment p =>
    refine passes_comment (breakOn_eq_none.2 fun hinfix => ?_)
    have hmem : '/' ∈ '#' :: line := hinfix.subset (by decide)
    simp [hslash] at hmem

/-! ## The version line -/

/-- The scan passes over a directive behind white space, whether it takes it for one or not. -/
theorem exists_passes_white_directive {ws : List Char} (hws : ∀ c ∈ ws, isWhite c = true)
    (h : '\n' ∉ line) (p : Position) :
    ∃ t : ScanState, t.AtLineStart ∧ (text p).Passes (ws ++ '#' :: line ++ ['\n']) t := by
  induction ws generalizing p with
  | nil =>
    cases hp : p.lineStart with
    | true => exact exists_passes_directive (s := text p) hp h
    | false => exact exists_passes_line (text p) hp ('#' :: line) (by simpa using h)
  | cons w ws ih =>
    have hw := hws w List.mem_cons_self
    have hws' : ∀ c ∈ ws, isWhite c = true := fun c hc => hws c (List.mem_cons_of_mem w hc)
    obtain ⟨t, ht, hpass⟩ := ih hws' (p.after w (.ofWhite w))
    refine ⟨t, ht, fun rest => ?_⟩
    have hstep := @declarations_cons p w (ws ++ '#' :: (line ++ '\n' :: rest))
      (Position.statement_eq_absent (takeWhile_white_directive hws _))
    simp only [Lexeme.classify_white hw, Lexeme.split_ofWhite] at hstep
    rw [← hpass rest]
    simpa using hstep

theorem missingNewline_concat (cs : List Char) : missingNewline (cs ++ ['\n']) = [] :=
  if_pos (.inr List.getLast?_concat)

theorem missingNewline_append {bs : List Char} (h : bs ≠ []) (hn : '\n' ∉ bs) (cs : List Char) :
    missingNewline (cs ++ bs) = ['\n'] := by
  refine if_neg (not_or.2 ⟨by simp [h], fun hlast => ?_⟩)
  rw [List.getLast?_append_of_ne_nil cs h] at hlast
  exact hn (List.mem_of_getLast? hlast)

/-- What stands in front of an inserted block: nothing, or white space and a version line. -/
theorem splitVersion_fst (cs : List Char) :
    let head := (splitVersion cs).1
    head = [] ∨ ∃ ws line, (∀ c ∈ ws, isWhite c = true) ∧ '\n' ∉ line ∧
      head ++ missingNewline head = ws ++ ("#version".toList ++ line) ++ ['\n'] := by
  have hws : ∀ c ∈ cs.takeWhile isWhite, isWhite c = true := fun c hc => List.mem_takeWhile_imp hc
  have hcs : cs.takeWhile isWhite ++ trimStart cs = cs := List.takeWhile_append_dropWhile
  have hversion : '\n' ∉ "#version".toList := by decide
  unfold splitVersion
  split
  · exact .inl rfl
  · rename_i tail htail
    rw [stripStart_eq_some] at htail
    rw [htail] at hcs ⊢
    rw [breakAt_append_of_notMem hversion]
    refine .inr ?_
    cases hbreak : breakAt '\n' tail with
    | none =>
      rw [breakAt_eq_none] at hbreak
      have hline : '\n' ∉ "#version".toList ++ tail := by simp [hbreak]
      refine ⟨_, tail, hws, hbreak, ?_⟩
      rw [← missingNewline_append (by simp) hline (cs.takeWhile isWhite), hcs]
      rfl
    | some parts =>
      exact ⟨_, parts.1, hws, notMem_of_breakAt hbreak,
        (congrArg _ (missingNewline_concat _)).trans (List.append_nil _)⟩

/-- A text is split behind the newline of its version line. -/
theorem splitVersion_line {ws line : List Char} (hws : ∀ c ∈ ws, isWhite c = true)
    (hline : '\n' ∉ line) (rest : List Char) :
    splitVersion (ws ++ ("#version".toList ++ line) ++ '\n' :: rest) =
      (ws ++ ("#version".toList ++ line) ++ ['\n'], rest) := by
  have hdirective : '\n' ∉ "#version".toList ++ line := by simp [hline]
  have htext : ws ++ ("#version".toList ++ line) ++ '\n' :: rest =
      ws ++ '#' :: ("version".toList ++ (line ++ '\n' :: rest)) := by simp
  have htrim : trimStart (ws ++ ("#version".toList ++ line) ++ '\n' :: rest) =
      "#version".toList ++ line ++ '\n' :: rest := by
    rw [htext, trimStart, List.dropWhile_append_of_pos hws, List.dropWhile_cons_of_neg (by decide)]
    simp
  have hwhite : (ws ++ ("#version".toList ++ line) ++ '\n' :: rest).takeWhile isWhite = ws := by
    rw [htext, List.takeWhile_append_of_pos hws, List.takeWhile_cons_of_neg (by decide),
      List.append_nil]
  have hstrip : stripStart "#version".toList ("#version".toList ++ line ++ '\n' :: rest) =
      some (line ++ '\n' :: rest) := stripStart_eq_some.2 (List.append_assoc _ _ _)
  simp only [splitVersion, htrim, hwhite, hstrip, breakAt_append_cons hdirective]

theorem exists_passes_version (cs : List Char) :
    let head := (splitVersion cs).1
    ∃ t : ScanState, t.AtLineStart ∧ (text .start).Passes (head ++ missingNewline head) t := by
  intro head
  rcases splitVersion_fst cs with hnil | ⟨ws, line, hws, hline, heq⟩
  · refine ⟨text .start, rfl, ?_⟩
    rw [show head = [] from hnil]
    exact .refl _
  · have hdirective : '\n' ∉ "version".toList ++ line := by simp [hline]
    rw [show head ++ missingNewline head = _ from heq]
    exact exists_passes_white_directive hws hdirective .start

end Lines

end ScanState

end ForwardShading.Glsl
