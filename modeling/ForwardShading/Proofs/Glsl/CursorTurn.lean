import ForwardShading.Proofs.Glsl.Cursor
import Mathlib.Data.List.DropRight

/-!
# Turns of a cursor

A cursor stands in front of the text that is left to be scanned (`Cursor.At`).  A turn takes it over
the lexeme there (`Cursor.step_of_absent`), or takes out the statement that begins at a word there
(`Cursor.step_of_word`).
-/

namespace ForwardShading.Glsl

open Text

/-! ## Tests of octets -/

theorem isBlank_lt {c : Char} (h : isBlank c = true) : c.toNat < 128 := by
  simp only [isBlank, Bool.or_eq_true, beq_iff_eq] at h
  rcases h with (rfl | rfl) | rfl <;> decide

theorem isWhite_of_isBlank {c : Char} (h : isBlank c = true) : isWhite c = true := by
  simp only [isBlank, Bool.or_eq_true, beq_iff_eq] at h
  rcases h with (rfl | rfl) | rfl <;> decide

theorem not_isBlank_of_isWordStart {c : Char} (h : isWordStart c = true) : ¬ isBlank c = true := by
  intro hblank
  have hword := not_isWordChar_of_isWhite (isWhite_of_isBlank hblank)
  rw [isWordChar_of_isWordStart h] at hword
  cases hword

theorem asciiTest_isBlank : AsciiTest isBlank := by
  apply asciiTest_of_false
  intro c hc
  rw [Bool.eq_false_iff]
  intro hblank
  have hlt := isBlank_lt hblank
  omega

theorem asciiTest_isWordChar : AsciiTest isWordChar := by
  apply asciiTest_of_false
  intro c hc
  rw [Bool.eq_false_iff]
  intro hword
  have hbounds := isWordChar_bounds hword
  omega

theorem isSpace_eq_false {c : Char} (hc : 128 ≤ c.toNat) : isSpace c = false := by
  rw [Bool.eq_false_iff]
  intro hspace
  simp only [isSpace, Bool.or_eq_true, beq_iff_eq] at hspace
  rcases hspace with (hblank | rfl) | rfl
  · have hlt := isBlank_lt hblank
    omega
  · exact absurd hc (by decide)
  · exact absurd hc (by decide)

namespace Lexeme

theorem classify_octets (lineStart : Bool) (c : Char) (cs : List Char) :
    classify lineStart c (octets cs) = classify lineStart c cs := by
  have hslash := head?_octets (a := '/') (by decide) cs
  have hstar := head?_octets (a := '*') (by decide) cs
  simp only [classify, hslash, hstar]

theorem classify_blank {c : Char} (h : isBlank c = true) (lineStart : Bool) (cs : List Char) :
    classify lineStart c cs = .blank := by
  have hne : c ≠ '\n' := by
    rintro rfl
    exact absurd h (by decide)
  rw [classify, if_neg hne, if_pos h]

theorem classify_word {c : Char} (h : isWordStart c = true) (lineStart : Bool) (cs : List Char) :
    classify lineStart c cs = .word := by
  have hne : ∀ d, isWordStart d = false → c ≠ d := by
    rintro d hd rfl
    exact absurd h (by simp [hd])
  simp [classify, h, not_isBlank_of_isWordStart h, hne '\n' (by decide), hne '/' (by decide),
    hne '#' (by decide)]

theorem classify_of_le {c : Char} (hc : 128 ≤ c.toNat) (lineStart : Bool) (cs : List Char) :
    classify lineStart c cs = .mark := by
  have hne : ∀ d : Char, d.toNat < 128 → c ≠ d := fun d hd => ne_of_ascii hd hc
  have hblank : ¬ isBlank c = true := by
    intro h
    have hlt := isBlank_lt h
    omega
  have hword : ¬ isWordStart c = true := by
    intro h
    have hbounds := isWordChar_bounds (isWordChar_of_isWordStart h)
    omega
  simp [classify, hblank, hword, hne '\n' (by decide), hne '/' (by decide), hne '#' (by decide)]

end Lexeme

theorem Position.bracket_of_le {c : Char} (hc : 128 ≤ c.toNat) (p : Position) : p.bracket c = p := by
  unfold bracket
  split
  · exact absurd hc (by decide)
  · exact absurd hc (by decide)
  · exact absurd hc (by decide)
  · exact absurd hc (by decide)
  · rfl

/-! ## Statements without blanks in front -/

namespace Position

variable {p : Position} {cs : List Char}

theorem statement_eq_readBody (h : cs.dropWhile isBlank = cs) :
    p.statement cs =
      match Keyword.ofWord? (cs.takeWhile isWordChar) with
      | none => .absent
      | some k =>
        if (k = .out → p.braces = 0) ∧ p.lineStart ∧ p.parens = 0 ∧
            (cs.dropWhile isWordChar).head?.any isSpace then
          Statement.readBody [] k (cs.dropWhile isWordChar)
        else
          .absent := by
  have hindent : cs.takeWhile isBlank = [] :=
    List.takeWhile_eq_nil_iff.2 (List.dropWhile_eq_self_iff.1 h)
  simp only [statement, Statement.read_eq_readWord, Statement.readWord, h, hindent]
  cases Keyword.ofWord? (cs.takeWhile isWordChar) with
  | none => exact ite_self _
  | some k =>
    dsimp only
    generalize (cs.dropWhile isWordChar).head?.any isSpace = spaced
    have hskip : ((k = .out ∧ (!decide (p.braces = 0)) = true) ∨ (!spaced) = true) ↔
        ¬ ((k = .out → p.braces = 0) ∧ spaced = true) := by
      simp only [Bool.not_eq_true', decide_eq_false_iff_not, not_and_or, Classical.not_imp,
        Bool.not_eq_true]
    by_cases hopen : p.lineStart = true ∧ p.parens = 0
    · rw [if_pos hopen]
      by_cases hword : (k = .out → p.braces = 0) ∧ spaced = true
      · rw [if_neg fun h => hskip.1 h hword, if_pos ⟨hword.1, hopen.1, hopen.2, hword.2⟩]
      · rw [if_pos (hskip.2 hword), if_neg fun h => hword ⟨h.1, h.2.2.2⟩]
    · rw [if_neg hopen, if_neg fun h => hopen ⟨h.2.1, h.2.2.1⟩]

/-- Where a statement begins, up to blanks, a word does. -/
theorem exists_word_of_statement (hblank : cs.dropWhile isBlank = cs) (h : p.statement cs ≠ .absent) :
    ∃ d ds, cs = d :: ds ∧ isWordStart d = true := by
  rw [statement_eq_readBody hblank] at h
  cases hk : Keyword.ofWord? (cs.takeWhile isWordChar) with
  | none => simp [hk] at h
  | some k =>
    have hname := Keyword.toList_name_of_ofWord? hk
    cases cs with
    | nil => cases k <;> exact absurd hname (by decide)
    | cons d ds =>
      refine ⟨d, ds, rfl, ?_⟩
      rw [List.takeWhile_cons] at hname
      split_ifs at hname
      · have hhead := congrArg List.head? hname
        rw [List.head?_cons] at hhead
        cases k <;> cases hhead <;> decide
      · cases k <;> exact absurd hname (by decide)

theorem indent_of_statement {s : Statement} {rest : List Char}
    (h : p.statement cs = .complete s rest) : s.indent = cs.takeWhile isBlank := by
  unfold statement at h
  split_ifs at h
  exact (Statement.exists_of_read h).1

/-- What is read in front of a statement does not depend on the blanks there. -/
theorem statement_dropWhile_blank (p : Position) (cs : List Char) :
    p.statement (cs.dropWhile isBlank) =
      match p.statement cs with
      | .absent => .absent
      | .unterminated => .unterminated
      | .complete s rest => .complete { s with indent := [] } rest := by
  have hdrop : (cs.dropWhile isBlank).dropWhile isBlank = cs.dropWhile isBlank :=
    List.dropWhile_idempotent _ _
  have htake : (cs.dropWhile isBlank).takeWhile isBlank = [] :=
    List.takeWhile_eq_nil_iff.2 (List.dropWhile_eq_self_iff.1 hdrop)
  simp only [statement, Statement.read_eq_readWord, Statement.readWord, Statement.readBody, hdrop,
    htake]
  split_ifs
  · cases Keyword.ofWord? ((cs.dropWhile isBlank).takeWhile isWordChar) with
    | none => rfl
    | some k =>
      dsimp only
      split_ifs
      · rfl
      · cases breakAt ';' ((cs.dropWhile isBlank).dropWhile isWordChar) with
        | none => rfl
        | some parts =>
          dsimp only
          split_ifs <;> rfl
  · rfl

end Position

namespace Cursor

variable {source front kept indent pre cs : List Char} {c : Cursor} {f : Char → Bool} {b : Char}

/-! ## Octet offsets in front of a text -/

theorem drop_octets (h : source = pre ++ cs) : (octets source).drop (size pre) = octets cs := by
  rw [h, octets_append]
  exact List.drop_left

theorem eq_append_span (f : Char → Bool) (h : source = pre ++ cs) :
    source = pre ++ cs.takeWhile f ++ cs.dropWhile f := by
  rw [List.append_assoc, List.takeWhile_append_dropWhile]
  exact h

theorem skip_octets (hf : AsciiTest f) (h : source = pre ++ cs) :
    skip source f (size pre) = size (pre ++ cs.takeWhile f) := by
  rw [skip, drop_octets h, (span_octets hf cs).1, size_append]
  rfl

theorem slice_of_eq {inside after : List Char} (h : source = pre ++ inside ++ after) :
    slice source (size pre) (size (pre ++ inside)) = .ok inside :=
  slice_eq_ok.2 ⟨pre, after, h, rfl, rfl⟩

theorem find_octets (hb : b.toNat < 128) (h : source = pre ++ cs) :
    find source b (size pre) =
      .ok ((breakAt b cs).map fun (before, _) => size (pre ++ before)) := by
  have hslice : slice source (size pre) (size source) = .ok cs := by
    rw [h]
    exact slice_of_eq (List.append_nil _).symm
  rw [find, hslice, drop_octets h, breakAt_octets hb]
  show Except.ok _ = _
  simp only [Option.map_map, Function.comp_def, size_append]
  rfl

/-- The offset of the first octet `b`, or of the end of the text. -/
theorem getD_breakAt (b : Char) (h : source = pre ++ cs) :
    ((breakAt b cs).map fun (before, _) => size (pre ++ before)).getD (size source) =
      size (pre ++ cs.takeWhile (· != b)) := by
  unfold breakAt
  cases hdrop : cs.dropWhile (· != b) with
  | nil =>
    have htake := List.takeWhile_append_dropWhile (p := (· != b)) (l := cs)
    rw [hdrop, List.append_nil] at htake
    rw [htake, h]
    rfl
  | cons d ds => rfl

theorem head?_octets_drop (hb : b.toNat < 128) (h : source = pre ++ cs) :
    (octets source)[size pre]? = some b ↔ cs.head? = some b := by
  rw [← List.head?_drop, drop_octets h, head?_octets hb]

theorem skipTerminator_octets (h : source = pre ++ cs) :
    skipTerminator source (size pre) = size (pre ++ (Statement.takeTerminator cs).1) := by
  have hmark : AsciiTest (· == ';') := by
    apply asciiTest_of_false
    intro c hc
    exact beq_eq_false_iff_ne.2 (ne_of_ascii (by decide) hc)
  have hmarks := eq_append_span (· == ';') h
  have hblanks := eq_append_span isBlank hmarks
  have hnewline := head?_octets_drop (b := '\n') (by decide) hblanks
  simp only [skipTerminator, Statement.takeTerminator, skip_octets hmark h,
    skip_octets asciiTest_isBlank hmarks, hnewline]
  cases (cs.dropWhile (· == ';')).dropWhile isBlank with
  | nil => simp [Statement.takeNewline]
  | cons d ds =>
    by_cases hd : d = '\n'
    · subst hd
      have hsize : size ['\n'] = 1 := rfl
      simp [Statement.takeNewline, hsize]
      omega
    · simp [Statement.takeNewline, hd]

theorem commentEnd_octets {ds : List Char} (h : source = pre ++ ['/', '*'] ++ ds) :
    commentEnd source (size (pre ++ ['/', '*'])) ds =
      size (pre ++ '/' :: (Lexeme.takeComment ('*' :: ds)).1) := by
  simp only [commentEnd, Lexeme.takeComment, List.drop_one, List.tail_cons]
  cases breakOn ['*', '/'] ds with
  | none =>
    rw [h]
    simp
  | some parts =>
    have hclose : ∀ cs, size cs + 2 = size (cs ++ ['*', '/']) := by
      intro cs
      rw [size_append]
      rfl
    dsimp only
    rw [← size_append, hclose]
    simp

/-! ## Turns -/

/-- A cursor that stands in front of `cs`.  Of the text before, `front` is done with, and `indent`
stands behind the last newline or statement. -/
structure At (source : List Char) (c : Cursor) (front kept indent cs : List Char) : Prop where
  source_eq : source = front ++ kept ++ indent ++ cs
  copiedTo : c.copiedTo = size front
  indentStart : c.indentStart = size (front ++ kept)
  position : c.position = size (front ++ kept ++ indent)

/-- What a turn at the word in front of `cs` comes to, by what is read there. -/
def readOutcome (c : Cursor) (front kept indent cs : List Char) :
    Statement.Reading → Except ScanFault Cursor
  | .absent => .ok (c.pass (size (front ++ kept ++ indent ++ cs.takeWhile isWordChar)))
  | .unterminated => .error (.declaration (.malformed (String.ofList (trim cs))))
  | .complete s _ => (fun d => c.remove kept d (size (front ++ kept ++ indent ++ s.text))) <$>
      s.declaration.mapError .declaration

theorem stepStatement_eq {k : Keyword} (h : c.At source front kept indent cs)
    (hk : Keyword.ofWord? (cs.takeWhile isWordChar) = some k) :
    c.stepStatement source k (size (front ++ kept ++ indent ++ cs.takeWhile isWordChar)) =
      c.readOutcome front kept indent cs (Statement.readBody [] k (cs.dropWhile isWordChar)) := by
  have hsource := h.source_eq
  have hcut := eq_append_span isWordChar hsource
  rw [stepStatement, find_octets (by decide) hcut, Statement.readBody]
  cases hbreak : breakAt ';' (cs.dropWhile isWordChar) with
  | none =>
    have hline : slice source c.position (size source) = .ok cs := by
      rw [h.position, hsource]
      exact slice_of_eq (List.append_nil _).symm
    show (slice source c.position (size source) >>= _) = _
    rw [hline]
    rfl
  | some parts =>
    obtain ⟨body, tail⟩ := parts
    have hbody : source = front ++ kept ++ indent ++ cs.takeWhile isWordChar ++ body ++
        ';' :: tail := by
      rw [List.append_assoc _ body, ← append_of_breakAt hbreak]
      exact hcut
    have hkept : slice source c.copiedTo c.indentStart = .ok kept := by
      have hfront : source = front ++ kept ++ (indent ++ cs) := by
        rw [← List.append_assoc]
        exact hsource
      rw [h.copiedTo, h.indentStart]
      exact slice_of_eq hfront
    have hname : k.name.toList = cs.takeWhile isWordChar := Keyword.toList_name_of_ofWord? hk
    have hslice := slice_of_eq hbody
    show (slice source _ (size (_ ++ body)) >>= _) = _
    rw [hslice]
    show (if '{' ∈ body then _ else _) = _
    dsimp only
    split_ifs
    · rfl
    · rw [skipTerminator_octets hbody, hkept]
      simp only [readOutcome, Statement.text, List.nil_append, hname, ← List.append_assoc]
      show _ = _ <$> Except.mapError _ (Statement.declaration ⟨[], k, body, []⟩)
      cases Statement.declaration ⟨[], k, body, []⟩ <;> rfl

/-- A turn at a word goes by what is read there. -/
theorem stepWord_eq (h : c.At source front kept indent cs) (hblank : cs.dropWhile isBlank = cs) :
    c.stepWord source = c.readOutcome front kept indent cs (c.point.statement cs) := by
  have hsource := h.source_eq
  have hcut := eq_append_span isWordChar hsource
  have hspace := any_head?_octets (fun _ => isSpace_eq_false) (cs.dropWhile isWordChar)
  rw [← drop_octets hcut, List.head?_drop] at hspace
  rw [Position.statement_eq_readBody hblank]
  simp only [stepWord, h.position, skip_octets asciiTest_isWordChar hsource, slice_of_eq hcut, hspace]
  show (match Keyword.ofWord? (cs.takeWhile isWordChar) with | none => _ | some k => _) = _
  cases hk : Keyword.ofWord? (cs.takeWhile isWordChar) with
  | none => rfl
  | some k =>
    dsimp only
    split_ifs
    · exact stepStatement_eq h hk
    · rfl

/-- A turn at a lexeme in front of which no statement begins. -/
theorem step_of_absent {d : Char} {ds : List Char} (hd : d.toNat < 128)
    (h : c.At source front kept indent (d :: ds)) (hs : c.point.statement (d :: ds) = .absent) :
    let k := Lexeme.classify c.point.lineStart d ds
    let stop := size (front ++ kept ++ indent ++ d :: (k.split ds).1)
    c.step source = .ok { c with
      position := stop
      indentStart := if k = .newline then stop else c.indentStart
      point := c.point.after d k } := by
  intro k
  have hsource := h.source_eq
  have hnext : size (front ++ kept ++ indent) + 1 = size (front ++ kept ++ indent ++ [d]) := by
    rw [size_append _ [d], size_cons_of_ascii hd, size_nil]
  simp only [step, h.position, drop_octets hsource, octets_cons_of_ascii hd, Lexeme.classify_octets]
  cases hk : Lexeme.classify c.point.lineStart d ds with
  | newline | blank | mark =>
    simp only [k, hk, hnext]
    rfl
  | lineComment | directive =>
    have hnewline : d ≠ '\n' := Lexeme.ne_newline_of_classify (by rw [hk]; decide)
    have hne : (d != '\n') = true := bne_iff_ne.2 hnewline
    have htake : (d :: ds).takeWhile (· != '\n') = d :: ds.takeWhile (· != '\n') := by
      rw [List.takeWhile_cons, if_pos hne]
    simp only [k, hk, find_octets (b := '\n') (by decide) hsource, Lexeme.split, ← htake,
      ← getD_breakAt '\n' hsource]
    rfl
  | blockComment =>
    obtain ⟨rfl, hstar⟩ := Lexeme.eq_of_classify_eq_blockComment hk
    obtain ⟨ds, rfl⟩ := List.head?_eq_some_iff.1 hstar
    have hopen : size (front ++ kept ++ indent ++ ['/', '*']) =
        size (front ++ kept ++ indent) + 2 := by
      rw [size_append _ ['/', '*']]
      rfl
    have hinside : source = front ++ kept ++ indent ++ ['/', '*'] ++ ds := by
      simpa using hsource
    have hslice := slice_of_eq (hinside.trans (List.append_nil _).symm)
    have hend := commentEnd_octets hinside
    rw [← hinside, hopen] at hslice
    rw [hopen] at hend
    simp only [k, hk, hslice, Lexeme.split, ← hend]
    rfl
  | word =>
    have hstart := Lexeme.isWordStart_of_classify hk
    have hword := isWordChar_of_isWordStart hstart
    simp only [k, hk, Lexeme.split, ← List.takeWhile_cons_of_pos (l := ds) hword]
    rw [stepWord_eq h (List.dropWhile_cons_of_neg (not_isBlank_of_isWordStart hstart)), hs]
    rfl

end Cursor

end ForwardShading.Glsl
