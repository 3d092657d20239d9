import ForwardShading.Proofs.Glsl.Seams

/-!
# Residuals scanned again

A residual is scanned in the positions that its text had before: a statement taken out leaves the
start of a line, as does the marker line, and no lexeme goes over such a place.  A keyword kept in
front of a block has the opening brace of the block kept with it.  So the residual of a stage has no
declaration (`Stage.ofSource_residual`).
-/

namespace ForwardShading.Glsl

open Text

namespace Statement

variable {topLevel : Bool} {line tail : List Char} {s : Statement}

/-- No brace stands in a statement in front of its first semicolon. -/
theorem WellFormed.exists_text_eq (h : s.WellFormed) :
    ∃ front back, s.text = front ++ ';' :: back ∧ ';' ∉ front ∧ '{' ∉ front := by
  obtain ⟨marks, blanks, newline, hterminator, hne, hmarks, -, -⟩ := h.terminator
  obtain ⟨c, marks, rfl⟩ := List.exists_cons_of_ne_nil hne
  obtain rfl : c = ';' := hmarks c List.mem_cons_self
  have hindent : ∀ c ∈ s.indent, c ≠ ';' ∧ c ≠ '{' := by
    intro c hc
    have hblank := h.indent c hc
    exact ⟨fun heq => absurd (heq ▸ hblank) (by decide), fun heq => absurd (heq ▸ hblank) (by decide)⟩
  have hname : ';' ∉ s.keyword.name.toList ∧ '{' ∉ s.keyword.name.toList := by
    cases s.keyword <;> decide
  refine ⟨s.indent ++ s.keyword.name.toList ++ s.body, marks ++ blanks ++ newline, ?_, ?_, ?_⟩
  · simp [text, hterminator]
  · simp only [List.mem_append, not_or]
    exact ⟨⟨fun hc => (hindent _ hc).1 rfl, hname.1⟩, h.body_marks.1⟩
  · simp only [List.mem_append, not_or]
    exact ⟨⟨fun hc => (hindent _ hc).2 rfl, hname.2⟩, h.body_marks.2⟩

/-- Where no statement is read in front of one, none is read there when that one is taken out. -/
theorem read_ne_complete (hs : s.WellFormed)
    (h : read topLevel (line ++ '\n' :: (s.text ++ tail)) = .absent) (rest : List Char)
    (s' : Statement) (rest' : List Char) :
    read topLevel (line ++ '\n' :: rest) ≠ .complete s' rest' := by
  rcases read_line_cases topLevel line with habsent | ⟨k, after, hread⟩
  · simp [habsent]
  · rw [hread] at h ⊢
    by_cases hmark : ';' ∈ after
    · rw [readBody_append hmark] at h ⊢
      cases hline : readBody (line.takeWhile isBlank) k (after ++ ['\n']) with
      | absent => exact Reading.noConfusion
      | unterminated => exact Reading.noConfusion
      | complete _ _ =>
        rw [hline] at h
        cases h
    · -- The first semicolon is that of `s`, so the brace of the block stands in front of `s`.
      obtain ⟨front, back, htext, hfront, hbrace⟩ := hs.exists_text_eq
      have hbreak : breakAt ';' (after ++ '\n' :: (s.text ++ tail)) =
          some (after ++ '\n' :: front, back ++ tail) := by
        have hnot : ';' ∉ after ++ '\n' :: front := by simp [hmark, hfront]
        rw [← breakAt_append_cons hnot, htext]
        simp
      have hmem : '{' ∈ after := by
        by_contra hnot
        rw [readBody, hbreak] at h
        simp [hnot, hbrace] at h
      rcases readBody_of_notMem hmark ('\n' :: rest) with hopen | ⟨body, tail', hbody⟩
      · rw [hopen]
        exact Reading.noConfusion
      · rw [readBody, hbody]
        simp [hmem]

/-- A statement without a semicolon has none in the text behind it. -/
theorem mark_notMem_of_unterminated {cs : List Char} (h : read topLevel cs = .unterminated) :
    ';' ∉ cs := by
  simp only [read] at h
  split at h
  · cases h
  · split at h
    · cases h
    · split at h
      · rename_i hnone
        have hblank : ';' ∉ cs.takeWhile isBlank := fun hc =>
          absurd (List.mem_takeWhile_imp hc) (by decide)
        have hword : ';' ∉ (cs.dropWhile isBlank).takeWhile isWordChar := fun hc =>
          absurd (List.mem_takeWhile_imp hc) (by decide)
        rw [← List.takeWhile_append_dropWhile (p := isBlank) (l := cs),
          ← List.takeWhile_append_dropWhile (p := isWordChar) (l := cs.dropWhile isBlank)]
        simp only [List.mem_append, not_or]
        exact ⟨hblank, hword, breakAt_eq_none.1 hnone⟩
      · split at h <;> cases h

end Statement

theorem Position.mark_notMem_of_unterminated {p : Position} {cs : List Char}
    (h : p.statement cs = .unterminated) : ';' ∉ cs := by
  unfold statement at h
  split_ifs at h
  exact Statement.mark_notMem_of_unterminated h

namespace Dissection

/-- Text is kept in front of the first statement, unless it stands at the front. -/
theorem before_ne_nil {p : Position} {cs : List Char} (h : p.statement cs = .absent) :
    ∀ c ∈ (ofPieces (scan p cs)).cuts.head?, c.before ≠ [] := by
  cases cs with
  | nil => simp [scan_nil, ofPieces]
  | cons c cs =>
    rw [scan_cons h]
    simp only [ofPieces, Piece.text, prepend]
    cases (ofPieces _).cuts <;> simp

end Dissection

namespace Piece

variable {p : Position} {cs : List Char} {marked : Bool}

/-- What a scan leaves of a text at whose front no statement stands: all of the text, or its lines in
front of the first statement, and more text. -/
theorem remainder_cases (h : p.statement cs = .absent) (marked : Bool) :
    remainder marked (scan p cs) = cs ∨
      ∃ line s tail rest, Statement.WellFormed s ∧ cs = line ++ '\n' :: (s.text ++ tail) ∧
        remainder marked (scan p cs) = line ++ '\n' :: rest := by
  have htext : (Dissection.ofPieces (scan p cs)).text = cs := by
    rw [Dissection.text_ofPieces, flatMap_text_scan]
  have hplaced := @Dissection.placed_scan p cs [] (.inl h)
  have hremainder : remainder marked (scan p cs) =
      if marked then (Dissection.ofPieces (scan p cs)).kept
      else (Dissection.ofPieces (scan p cs)).residual := by
    rw [remainder, Dissection.flatMap_residue, Dissection.residual_ofPieces]
  have hfront := Dissection.before_ne_nil h
  have hwf := @Dissection.wellFormed_scan p cs
  rw [Dissection.prepend_nil] at hplaced
  rw [hremainder]
  generalize Dissection.ofPieces (scan p cs) = d at *
  obtain ⟨cuts, last⟩ := d
  cases cuts with
  | nil =>
    refine .inl ?_
    cases marked <;> simpa [Dissection.text, Dissection.kept, Dissection.residual] using htext
  | cons c cuts =>
    refine .inr ?_
    obtain ⟨line, hline⟩ : ∃ line, c.before = line ++ ['\n'] :=
      List.getLast?_eq_some_iff.1 ((hplaced c List.mem_cons_self).resolve_left (hfront c rfl))
    refine ⟨line, c.statement, Dissection.text ⟨cuts, last⟩, if marked then Dissection.kept ⟨cuts, last⟩
      else marker ++ '\n' :: Dissection.kept ⟨cuts, last⟩, hwf _ List.mem_cons_self, ?_, ?_⟩
    · rw [← htext]
      simp [Dissection.text, hline]
    · cases marked <;> simp [Dissection.kept, Dissection.residual, hline]

theorem head?_remainder (h : p.statement cs = .absent) (marked : Bool) :
    (remainder marked (scan p cs)).head? = cs.head? := by
  rcases remainder_cases h marked with heq | ⟨line, s, tail, rest, -, rfl, heq⟩
  · rw [heq]
  · rw [heq]
    cases line <;> rfl

theorem statement_remainder (h : p.statement cs = .absent) (marked : Bool) (s : Statement)
    (rest : List Char) : p.statement (remainder marked (scan p cs)) ≠ .complete s rest := by
  rcases remainder_cases h marked with heq | ⟨line, s', tail, rest', hs', rfl, heq⟩
  · simp [heq, h]
  · rw [heq]
    unfold Position.statement at h ⊢
    split_ifs at h ⊢
    · exact Statement.read_ne_complete hs' h rest' s rest
    · exact Statement.Reading.noConfusion

/-- The marker line holds no statement, and leaves the scan at the start of a line. -/
theorem scan_marker (hp : p.lineStart = true) (cs : List Char) :
    scan p (marker ++ '\n' :: cs) =
      [.kept ['@'], .kept ['@'], .kept ['@'], .kept ['\n']] ++ scan p cs := by
  have hmark : ∀ (q : Position) (rest : List Char),
      scan q ('@' :: rest) = .kept ['@'] :: scan { q with lineStart := false } rest :=
    fun q rest => scan_cons (Position.statement_eq_absent rfl)
  have hnewline : scan { p with lineStart := false } ('\n' :: cs) = .kept ['\n'] :: scan p cs := by
    have h := @scan_cons { p with lineStart := false } '\n' cs
      (Position.statement_eq_absent rfl)
    rw [show p = { p with lineStart := true } by rw [← hp]]
    exact h
  show scan p ('@' :: '@' :: '@' :: '\n' :: cs) = _
  rw [hmark, hmark, hmark, hnewline]
  rfl

/-- The lexeme at the front of a text is the same in what a scan leaves of it. -/
theorem lexeme_remainder {c : Char} (h : p.statement (c :: cs) = .absent) (marked : Bool) :
    let k := Lexeme.classify p.lineStart c cs
    let left := remainder marked (scan (p.after c k) (k.split cs).2)
    Lexeme.classify p.lineStart c ((k.split cs).1 ++ left) = k ∧
      k.split ((k.split cs).1 ++ left) = ((k.split cs).1, left) := by
  intro k left
  by_cases hk : k = .newline
  · obtain rfl : c = '\n' := Lexeme.eq_of_classify_eq_newline hk
    exact ⟨rfl, rfl⟩
  · have hhead : left.head? = (k.split cs).2.head? :=
      head?_remainder (Dissection.statement_after_of_ne h hk) marked
    have hclassify : Lexeme.classify p.lineStart c ((k.split cs).1 ++ left) = k := by
      refine Lexeme.classify_congr ?_
      rw [List.head?_append, hhead, ← List.head?_append, k.split_append]
    refine ⟨hclassify, ?_⟩
    by_cases hopen : k.IsOpen cs
    · -- The comment takes all text, and there is nothing left.
      have hrest : k.split cs = (cs, []) := by
        rw [hopen.1, Lexeme.split, Lexeme.takeComment, hopen.2]
      have hleft : left = [] := by simp [left, hrest, scan_nil]
      rw [hleft, hrest, List.append_nil, hrest]
    · exact Lexeme.split_append_of_stopsAt hopen ((Lexeme.stopsAt_split k cs).of_head? hhead)

/-- No statement is found in what a scan leaves. -/
theorem statement_notMem_scan (marked : Bool) (p : Position) (cs : List Char) (s : Statement) :
    .statement s ∉ scan p (remainder marked (scan p cs)) := by
  fun_induction scan p cs generalizing marked with
  | case1 p cs t rest ht _ ih =>
    have hp : p.lineStart = true := Position.lineStart_of_statement cs (by simp [ht])
    cases marked with
    | true => simpa using ih true
    | false =>
      rw [remainder_statement, if_neg (by decide), List.append_assoc, List.singleton_append,
        scan_marker hp]
      simpa using ih true
  | case2 p cs hs => simp [scan_of_unterminated hs]
  | case3 p hs => simp [scan_nil]
  | case4 p c cs hs k _ ih =>
    have hcomplete := statement_remainder hs marked
    obtain ⟨hclassify, hsplit⟩ := lexeme_remainder hs marked
    rw [scan_cons hs, remainder_kept, List.cons_append] at hcomplete
    rw [remainder_kept, List.cons_append]
    cases hstatement : p.statement (c :: ((k.split cs).1 ++
        remainder marked (scan (p.after c k) (k.split cs).2))) with
    | complete t rest => exact absurd hstatement (hcomplete t rest)
    | unterminated => simp [scan_of_unterminated hstatement]
    | absent =>
      rw [scan_cons hstatement, hclassify, hsplit]
      simpa using ih marked

/-- What pieces declare of which none is a statement. -/
theorem declarations_of_notMem {ps : List Piece} (h : ∀ s, .statement s ∉ ps) :
    (declarations ps = .ok [] ∧ residual ps = ps.flatMap Piece.text) ∨
      ∃ cs, .unterminated cs ∈ ps ∧
        declarations ps = .error (.malformed (String.ofList (trim cs))) := by
  induction ps with
  | nil => exact .inl ⟨rfl, rfl⟩
  | cons p ps ih =>
    cases p with
    | kept text =>
      rcases ih fun s hs => h s (List.mem_cons_of_mem _ hs) with ⟨hds, hresidual⟩ | ⟨cs, hcs, hds⟩
      · refine .inl ⟨hds, ?_⟩
        rw [List.flatMap_cons, ← hresidual]
        rfl
      · exact .inr ⟨cs, List.mem_cons_of_mem _ hcs, hds⟩
    | statement s => exact absurd List.mem_cons_self (h s)
    | unterminated text => exact .inr ⟨text, List.mem_cons_self, rfl⟩

/-- A statement that no semicolon ends reaches to the end of the text. -/
theorem suffix_of_unterminated_mem {rest : List Char} (h : .unterminated rest ∈ scan p cs) :
    rest <:+ cs ∧ ';' ∉ rest := by
  fun_induction scan p cs with
  | case1 p cs s tail hs _ ih =>
    obtain ⟨hsuffix, hmark⟩ := ih (by simpa using h)
    exact ⟨hsuffix.trans ⟨_, Position.text_append_of_statement hs⟩, hmark⟩
  | case2 p cs hs =>
    obtain rfl : rest = cs := by simpa using h
    exact ⟨List.suffix_rfl, Position.mark_notMem_of_unterminated hs⟩
  | case3 p hs => simp at h
  | case4 p c cs hs k _ ih =>
    obtain ⟨hsuffix, hmark⟩ := ih (by simpa using h)
    exact ⟨(hsuffix.trans ⟨_, k.split_append cs⟩).trans (List.suffix_cons c cs), hmark⟩

end Piece

/-- Nothing is left to take out of the residual of a stage.  Where the residual can be read it
declares nothing and stays as it is.  Else a keyword is left without a semicolon behind it. -/
theorem Stage.ofSource_residual {source : String} {stage : Stage} (h : ofSource source = .ok stage) :
    (∀ again, ofSource stage.residual = .ok again →
      again.attributes = [] ∧ again.varyings = [] ∧ again.outputs = [] ∧ again.uniforms = [] ∧
        again.residual = stage.residual) ∧
    ∀ e, ofSource stage.residual = .error e →
      ∃ rest, rest <:+ stage.residual.toList ∧ ';' ∉ rest ∧
        e = .malformed (String.ofList (trim rest)) := by
  obtain ⟨ds, -, hstage⟩ := bind_eq_ok.1 h
  cases hstage
  have hstatements := Piece.statement_notMem_scan false .start source.toList
  simp only [ofSource, String.toList_ofList]
  change ∀ s, .statement s ∉ scan .start (Piece.residual (scan .start source.toList)) at hstatements
  generalize Piece.residual (scan .start source.toList) = left at hstatements ⊢
  rcases Piece.declarations_of_notMem hstatements with ⟨hds, hresidual⟩ | ⟨rest, hrest, hds⟩
  · rw [hds, hresidual, flatMap_text_scan]
    constructor
    · rintro again hagain
      cases hagain
      exact ⟨rfl, rfl, rfl, rfl, rfl⟩
    · intro e he
      cases he
  · rw [hds]
    constructor
    · intro again hagain
      cases hagain
    · rintro e he
      cases he
      obtain ⟨hsuffix, hmark⟩ := Piece.suffix_of_unterminated_mem hrest
      exact ⟨rest, hsuffix, hmark, rfl⟩

/-- A block with a statement in it, a statement behind another one, and a comment between them. -/
def nestedBlock : String :=
  "uniform Lights \x7b\n uniform float a; out vec2 b;\n vec4 c;\n\x7d;\n/* x */\n" ++
    " out vec4 d; varying vec2 e;"

/-- A block with its only semicolon in a statement. -/
def openBlock : String :=
  "uniform Lights \x7b\n uniform float a;\n"

/-- The residual of the nested block is read once more, and stays.  That of the open block cannot be
read. -/
theorem Stage.ofSource_residual_nestedBlock :
    (∃ stage again, ofSource nestedBlock = .ok stage ∧ stage.declarations.length = 3 ∧
      ofSource stage.residual = .ok again ∧ again.attributes = [] ∧ again.varyings = [] ∧
        again.outputs = [] ∧ again.uniforms = [] ∧ again.residual = stage.residual) ∧
    ∃ stage e, ofSource openBlock = .ok stage ∧ ofSource stage.residual = .error e ∧
      ∃ rest, rest <:+ stage.residual.toList ∧ ';' ∉ rest ∧
        e = .malformed (String.ofList (trim rest)) := by
  let nested : Stage :=
    ⟨"uniform Lights \x7b\n@@@\nout vec2 b;\n vec4 c;\n\x7d;\n/* x */\n",
      [.uniform ⟨"float a", none, "float", "a", 0, none⟩, .out ⟨"vec4 d"⟩,
        .varying ⟨"vec2 e", "vec2", "e"⟩]⟩
  let unclosed : Stage :=
    ⟨"uniform Lights \x7b\n@@@\n", [.uniform ⟨"float a", none, "float", "a", 0, none⟩]⟩
  have hnested : ofSource nestedBlock = .ok nested := by decide +kernel
  have hagain : ofSource nested.residual = .ok ⟨nested.residual, []⟩ := by decide +kernel
  have hunclosed : ofSource openBlock = .ok unclosed := by decide +kernel
  have herror : ofSource unclosed.residual = .error (.malformed "uniform Lights \x7b\n@@@") := by
    decide +kernel
  exact ⟨⟨nested, _, hnested, rfl, hagain, (ofSource_residual hnested).1 _ hagain⟩,
    unclosed, _, hunclosed, herror, (ofSource_residual hunclosed).2 _ herror⟩

end ForwardShading.Glsl
