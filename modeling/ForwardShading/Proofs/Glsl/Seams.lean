import ForwardShading.Proofs.Glsl.Lines

/-!
# Texts put together at the end of a line

A scan looks ahead: to the end of a word, of a comment and of a statement.  Where a text ends a line,
none of this goes over its end but an open block comment and a statement without a semicolon.  So the
pieces of two texts put together are those of the one and those of the other (`scan_append`), and a
stage text may be taken apart chunk by chunk (`Stage.ofSource_append`).
-/

namespace ForwardShading.Glsl

open Text

/-! ## Reading on behind the end of a line -/

theorem takeWhile_append_newline {f : Char → Bool} (hf : f '\n' = false) (as bs : List Char) :
    (as ++ '\n' :: bs).takeWhile f = as.takeWhile f := by
  induction as with
  | nil => simp [hf]
  | cons a as ih => by_cases ha : f a = true <;> simp [ha, ih]

namespace Statement

/-- The same reading with more text behind. -/
def Reading.append (bs : List Char) : Reading → Reading
  | .complete s rest => .complete s (rest ++ bs)
  | .absent => .absent
  | .unterminated => .unterminated

/-- Reads a statement on from behind its keyword. -/
def readBody (indent : List Char) (k : Keyword) (after : List Char) : Reading :=
  match breakAt ';' after with
  | none => .unterminated
  | some (body, rest) =>
    if '{' ∈ body then
      .absent
    else
      .complete ⟨indent, k, body, (takeTerminator (';' :: rest)).1⟩ (takeTerminator (';' :: rest)).2

/-- Reads a statement on from its first word. -/
def readWord (topLevel : Bool) (indent word after : List Char) : Reading :=
  match Keyword.ofWord? word with
  | none => .absent
  | some k =>
    if (k = .out ∧ !topLevel) ∨ !after.head?.any isSpace then .absent else readBody indent k after

theorem read_eq_readWord (topLevel : Bool) (cs : List Char) :
    read topLevel cs = readWord topLevel (cs.takeWhile isBlank)
      ((cs.dropWhile isBlank).takeWhile isWordChar)
      ((cs.dropWhile isBlank).dropWhile isWordChar) :=
  rfl

variable {topLevel : Bool} {indent line after : List Char} {k : Keyword}

/-- Whether a keyword stands at the front of a text is seen from its first line. -/
theorem read_line_cases (topLevel : Bool) (line : List Char) :
    (∀ rest, read topLevel (line ++ '\n' :: rest) = .absent) ∨
      ∃ k after, ∀ rest, read topLevel (line ++ '\n' :: rest) =
        readBody (line.takeWhile isBlank) k (after ++ '\n' :: rest) := by
  have hread : ∀ rest, read topLevel (line ++ '\n' :: rest) =
      readWord topLevel (line.takeWhile isBlank) ((line.dropWhile isBlank).takeWhile isWordChar)
        ((line.dropWhile isBlank).dropWhile isWordChar ++ '\n' :: rest) := by
    intro rest
    have hblank : isBlank '\n' = false := by decide
    have hword : isWordChar '\n' = false := by decide
    rw [read_eq_readWord, dropWhile_append_newline hblank, dropWhile_append_newline hword,
      takeWhile_append_newline hblank, takeWhile_append_newline hword]
  generalize (line.dropWhile isBlank).dropWhile isWordChar = after at hread
  have hspace : ∀ rest : List Char, (after ++ '\n' :: rest).head? = after.head?.or (some '\n') :=
    fun rest => List.head?_append
  simp only [hread, readWord, hspace]
  cases Keyword.ofWord? ((line.dropWhile isBlank).takeWhile isWordChar) with
  | none => exact .inl fun _ => rfl
  | some k =>
    dsimp only
    split_ifs
    · exact .inl fun _ => rfl
    · exact .inr ⟨k, after, fun _ => rfl⟩

/-- A terminator does not go over the end of a line. -/
theorem takeTerminator_append_newline (cs rest : List Char) :
    takeTerminator (cs ++ '\n' :: rest) =
      ((takeTerminator (cs ++ ['\n'])).1, (takeTerminator (cs ++ ['\n'])).2 ++ rest) := by
  have hmark : ('\n' == ';') = false := by decide
  have hblank : isBlank '\n' = false := by decide
  simp only [takeTerminator,
    dropWhile_append_newline (f := (· == ';')) hmark, dropWhile_append_newline hblank,
    takeWhile_append_newline (f := (· == ';')) hmark, takeWhile_append_newline hblank]
  cases (cs.dropWhile (· == ';')).dropWhile isBlank with
  | nil => rfl
  | cons c cs =>
    by_cases hc : c = '\n'
    · subst hc
      simp [takeNewline]
    · simp [takeNewline, hc]

theorem readBody_append (h : ';' ∈ after) (rest : List Char) :
    readBody indent k (after ++ '\n' :: rest) =
      (readBody indent k (after ++ ['\n'])).append rest := by
  obtain ⟨body, tail, rfl, hbody⟩ := List.eq_append_cons_of_mem h
  have hbreak : ∀ bs, breakAt ';' (body ++ ';' :: tail ++ '\n' :: bs) =
      some (body, tail ++ '\n' :: bs) := by
    intro bs
    rw [List.append_assoc, List.cons_append]
    exact breakAt_append_cons hbody _
  simp only [readBody, hbreak]
  split_ifs
  · rfl
  · rw [← List.cons_append, takeTerminator_append_newline]
    rfl

theorem readBody_of_notMem (h : ';' ∉ after) (rest : List Char) :
    readBody indent k (after ++ rest) = .unterminated ∨
      ∃ body tail, breakAt ';' (after ++ rest) = some (after ++ body, tail) := by
  rw [readBody, breakAt_append_of_notMem h]
  cases breakAt ';' rest with
  | none => exact .inl rfl
  | some parts => exact .inr ⟨parts.1, parts.2, rfl⟩

/-- What is read at the front of a text that ends a line does not depend on what stands behind it,
unless it lacks a semicolon. -/
theorem read_append (h : read topLevel (line ++ ['\n']) ≠ .unterminated) (rest : List Char) :
    read topLevel (line ++ '\n' :: rest) = (read topLevel (line ++ ['\n'])).append rest := by
  rcases read_line_cases topLevel line with habsent | ⟨k, after, hread⟩
  · rw [habsent, habsent]
    rfl
  · rw [hread] at h ⊢
    rw [hread]
    by_cases hmark : ';' ∈ after
    · exact readBody_append hmark rest
    · refine absurd ?_ h
      have hnone : breakAt ';' (after ++ ['\n']) = none := breakAt_eq_none.2 (by simp [hmark])
      rw [readBody, hnone]

end Statement

namespace Position

theorem statement_append {p : Position} {cs : List Char} (hline : cs.getLast? = some '\n')
    (h : p.statement cs ≠ .unterminated) (rest : List Char) :
    p.statement (cs ++ rest) = (p.statement cs).append rest := by
  obtain ⟨line, rfl⟩ : ∃ line, cs = line ++ ['\n'] := List.getLast?_eq_some_iff.1 hline
  unfold statement at h ⊢
  split_ifs at h ⊢
  · rw [List.append_assoc]
    exact Statement.read_append h rest
  · rfl

theorem lineStart_of_statement {p : Position} (cs : List Char) (h : p.statement cs ≠ .absent) :
    p.lineStart = true := by
  by_contra hline
  exact h (statement_eq_absent_of_lineStart (by simpa using hline) cs)

end Position

namespace Lexeme

theorem classify_congr {lineStart : Bool} {c : Char} {cs cs' : List Char} (h : cs.head? = cs'.head?) :
    classify lineStart c cs = classify lineStart c cs' := by
  simp only [classify, h]

/-- A block comment that the text does not close. -/
def IsOpen (k : Lexeme) (cs : List Char) : Prop :=
  k = .blockComment ∧ breakOn ['*', '/'] (cs.drop 1) = none

instance (k : Lexeme) (cs : List Char) : Decidable (k.IsOpen cs) :=
  inferInstanceAs (Decidable (_ ∧ _))

/-- Holds of a text that a lexeme does not go on into. -/
def StopsAt : Lexeme → List Char → Prop
  | .word, cs => ∀ c ∈ cs.head?, isWordChar c = false
  | .lineComment, cs | .directive, cs => ∀ c ∈ cs.head?, c = '\n'
  | .newline, _ | .blank, _ | .mark, _ | .blockComment, _ => True

theorem StopsAt.of_head? {k : Lexeme} {cs cs' : List Char} (h : k.StopsAt cs)
    (hhead : cs'.head? = cs.head?) : k.StopsAt cs' := by
  cases k with
  | newline | blank | mark | blockComment => trivial
  | word | lineComment | directive => rwa [StopsAt, hhead]

theorem stopsAt_split (k : Lexeme) (cs : List Char) : k.StopsAt (k.split cs).2 := by
  have hhead : ∀ f : Char → Bool, ∀ c ∈ (cs.dropWhile f).head?, f c = false := by
    intro f c hc
    have h := List.head?_dropWhile_not f cs
    rw [Option.mem_def.1 hc] at h
    exact h
  cases k with
  | newline | blank | mark | blockComment => trivial
  | word => exact hhead isWordChar
  | lineComment | directive => exact fun c hc => by simpa using hhead (· != '\n') c hc

theorem takeWhile_append_of_head? {f : Char → Bool} {rest : List Char}
    (h : ∀ c ∈ rest.head?, f c = false) (cs : List Char) :
    (cs.takeWhile f ++ rest).takeWhile f = cs.takeWhile f ∧
      (cs.takeWhile f ++ rest).dropWhile f = rest := by
  have hcs : ∀ c ∈ cs.takeWhile f, f c = true := fun c hc => List.mem_takeWhile_imp hc
  rw [List.takeWhile_append_of_pos hcs, List.dropWhile_append_of_pos hcs]
  cases rest with
  | nil => simp
  | cons c rest => simp [h c rfl]

/-- Where a lexeme ends does not depend on what stands behind it. -/
theorem split_append_of_stopsAt {k : Lexeme} {cs rest : List Char} (hopen : ¬ k.IsOpen cs)
    (h : k.StopsAt rest) : k.split ((k.split cs).1 ++ rest) = ((k.split cs).1, rest) := by
  cases k with
  | newline | blank | mark => rfl
  | lineComment | directive =>
    have hrest : ∀ c ∈ rest.head?, (c != '\n') = false := fun c hc => by simp [h c hc]
    obtain ⟨htake, hdrop⟩ := takeWhile_append_of_head? hrest cs
    simp only [split, htake, hdrop]
  | word =>
    obtain ⟨htake, hdrop⟩ := takeWhile_append_of_head? h cs
    simp only [split, htake, hdrop]
  | blockComment =>
    cases cs with
    | nil => exact absurd ⟨rfl, rfl⟩ hopen
    | cons c cs =>
      cases hclosed : breakOn ['*', '/'] cs with
      | none => exact absurd ⟨rfl, hclosed⟩ hopen
      | some parts =>
        have hnext : breakOn ['*', '/'] (parts.1 ++ '*' :: '/' :: rest) = some (parts.1, rest) := by
          simpa using breakOn_append_pattern (by decide) hclosed rest
        simp [split, takeComment, hclosed, hnext]

theorem split_append_of_getLast? {k : Lexeme} {cs : List Char} (hopen : ¬ k.IsOpen cs)
    (hline : cs.getLast? = some '\n') (rest : List Char) :
    k.split (cs ++ rest) = ((k.split cs).1, (k.split cs).2 ++ rest) := by
  have hstops : k.StopsAt ((k.split cs).2 ++ rest) := by
    by_cases hcomment : k = .blockComment
    · rw [hcomment]
      trivial
    · obtain ⟨line, rfl⟩ : ∃ line, cs = line ++ ['\n'] := List.getLast?_eq_some_iff.1 hline
      refine (stopsAt_split k (line ++ ['\n'])).of_head? ?_
      rw [split_append_newline hcomment]
      cases (k.split line).2 <;> rfl
  have hsplit := split_append_of_stopsAt hopen hstops
  rwa [← List.append_assoc, split_append] at hsplit

end Lexeme

/-! ## Scans -/

theorem Dissection.EndsLine.of_append {as bs : List Char} (h : EndsLine (as ++ bs)) : EndsLine bs := by
  by_cases hbs : bs = []
  · exact .inl hbs
  · rcases h with hnil | hlast
    · exact .inl (List.append_eq_nil_iff.1 hnil).2
    · rw [List.getLast?_append_of_ne_nil as hbs] at hlast
      exact .inr hlast

section Scans

variable {p q : Position} {c : Char} {cs rest : List Char} {s : Statement}

theorem scan_of_complete (h : p.statement cs = .complete s rest) :
    scan p cs = .statement s :: scan p rest := by
  rw [scan]
  split <;> simp_all

theorem scan_of_unterminated (h : p.statement cs = .unterminated) :
    scan p cs = [.unterminated cs] := by
  rw [scan]
  split <;> simp_all

/-- What a scan has come to at the end of a text. -/
def ScanState.ending (p : Position) (cs : List Char) : ScanState :=
  match h : p.statement cs with
  | .complete _ rest =>
    have := Position.length_lt_of_statement h
    ending p rest
  | .unterminated => .text p
  | .absent =>
    match cs with
    | [] => .text p
    | c :: cs =>
      let k := Lexeme.classify p.lineStart c cs
      have := k.length_split_le cs
      if k.IsOpen cs then .comment p else ending (p.after c k) (k.split cs).2
termination_by cs.length
decreasing_by all_goals grind

@[simp]
theorem ending_nil (p : Position) : ScanState.ending p [] = .text p := by
  have h : p.statement [] = .absent := Position.statement_eq_absent rfl
  rw [ScanState.ending]
  split <;> simp_all

theorem ending_of_complete (h : p.statement cs = .complete s rest) :
    ScanState.ending p cs = ScanState.ending p rest := by
  rw [ScanState.ending]
  split <;> simp_all

theorem ending_cons (h : p.statement (c :: cs) = .absent) :
    let k := Lexeme.classify p.lineStart c cs
    ScanState.ending p (c :: cs) =
      if k.IsOpen cs then .comment p else ScanState.ending (p.after c k) (k.split cs).2 := by
  rw [ScanState.ending]
  split <;> simp_all

/-- The lexeme at the front of a text that ends a line is the same with more text behind. -/
theorem lexeme_append {lineStart : Bool} (hline : (c :: cs).getLast? = some '\n')
    (hopen : ¬ (Lexeme.classify lineStart c cs).IsOpen cs) (rest : List Char) :
    let k := Lexeme.classify lineStart c cs
    Lexeme.classify lineStart c (cs ++ rest) = k ∧
      k.split (cs ++ rest) = ((k.split cs).1, (k.split cs).2 ++ rest) := by
  cases cs with
  | nil =>
    obtain rfl : c = '\n' := by simpa using hline
    exact ⟨rfl, rfl⟩
  | cons d cs =>
    rw [List.getLast?_cons_cons] at hline
    exact ⟨Lexeme.classify_congr rfl, Lexeme.split_append_of_getLast? hopen hline rest⟩

/-- Of all lexemes only a newline ends a line with its last character. -/
theorem eq_newline_of_split_eq_nil {lineStart : Bool} (hline : (c :: cs).getLast? = some '\n')
    (hopen : ¬ (Lexeme.classify lineStart c cs).IsOpen cs)
    (h : ((Lexeme.classify lineStart c cs).split cs).2 = []) :
    Lexeme.classify lineStart c cs = .newline := by
  cases cs with
  | nil =>
    obtain rfl : c = '\n' := by simpa using hline
    rfl
  | cons d cs =>
    rw [List.getLast?_cons_cons] at hline
    generalize Lexeme.classify lineStart c (d :: cs) = k at hopen h ⊢
    have hmem : '\n' ∈ d :: cs := List.mem_of_getLast? hline
    cases k with
    | newline => rfl
    | blank | mark => cases h
    | word =>
      have hword := List.dropWhile_eq_nil_iff.1 h _ hmem
      exact absurd hword (by decide)
    | lineComment | directive =>
      have hother := List.dropWhile_eq_nil_iff.1 h _ hmem
      exact absurd hother (by decide)
    | blockComment =>
      have hsplit := Lexeme.split_append .blockComment (d :: cs)
      cases hclosed : breakOn ['*', '/'] cs with
      | none => exact absurd ⟨rfl, hclosed⟩ hopen
      | some parts =>
        rw [h, List.append_nil] at hsplit
        simp only [Lexeme.split, Lexeme.takeComment, List.drop_one, List.tail_cons, hclosed] at hsplit
        rw [← hsplit, List.getLast?_append_of_ne_nil _ (List.cons_ne_nil _ _)] at hline
        exact absurd hline (by decide)

theorem endsLine_of_complete (hline : Dissection.EndsLine cs)
    (h : p.statement cs = .complete s rest) : Dissection.EndsLine rest := by
  rw [← Position.text_append_of_statement h] at hline
  exact hline.of_append

theorem endsLine_split (k : Lexeme) (hline : Dissection.EndsLine (c :: cs)) :
    Dissection.EndsLine (k.split cs).2 := by
  rw [← List.singleton_append, ← k.split_append cs, ← List.append_assoc] at hline
  exact hline.of_append

/-- A scan that has come to the end of a line is at the start of the next one. -/
theorem lineStart_of_ending (hline : Dissection.EndsLine cs) (hp : cs = [] → p.lineStart = true)
    (hend : ScanState.ending p cs = .text q) : q.lineStart = true := by
  fun_induction ScanState.ending p cs with
  | case1 p cs s rest hs _ ih =>
    have hp' : p.lineStart = true := Position.lineStart_of_statement cs (by simp [hs])
    exact ih (endsLine_of_complete hline hs) (fun _ => hp') hend
  | case2 p cs hs =>
    obtain rfl := ScanState.text.inj hend
    exact Position.lineStart_of_statement cs (by simp [hs])
  | case3 p hs =>
    obtain rfl := ScanState.text.inj hend
    exact hp rfl
  | case4 p c cs hs k _ hopen => cases hend
  | case5 p c cs hs k _ hopen ih =>
    have hlast := hline.resolve_left (List.cons_ne_nil c cs)
    refine ih (endsLine_split k hline) (fun hnil => ?_) hend
    have hk : k = .newline := eq_newline_of_split_eq_nil hlast hopen hnil
    rw [hk]
    rfl

/-- The pieces of two texts put together, where the first one ends a line and its scan has come to
its end outside of comments. -/
theorem scan_append (hline : Dissection.EndsLine cs) (hend : ScanState.ending p cs = .text q)
    (hterminated : ∀ x, .unterminated x ∉ scan p cs) (rest : List Char) :
    scan p (cs ++ rest) = scan p cs ++ scan q rest := by
  fun_induction scan p cs with
  | case1 p cs s tail hs _ ih =>
    rw [ending_of_complete hs] at hend
    have hne : cs ≠ [] := by
      rintro rfl
      exact absurd (Position.length_lt_of_statement hs) (Nat.not_lt_zero _)
    have hstatement : p.statement (cs ++ rest) = .complete s (tail ++ rest) := by
      rw [Position.statement_append (hline.resolve_left hne) (by simp [hs]), hs]
      rfl
    rw [scan_of_complete hstatement, List.cons_append,
      ih (endsLine_of_complete hline hs) hend fun x hx => hterminated x (List.mem_cons_of_mem _ hx)]
  | case2 p cs hs => exact absurd List.mem_cons_self (hterminated cs)
  | case3 p hs =>
    obtain rfl : p = q := by simpa using hend
    rfl
  | case4 p c cs hs k _ ih =>
    have hlast := hline.resolve_left (List.cons_ne_nil c cs)
    rw [ending_cons hs] at hend
    have hopen : ¬ k.IsOpen cs := fun hopen => by simp [k, if_pos hopen] at hend
    rw [if_neg hopen] at hend
    obtain ⟨hclassify, hsplit⟩ := lexeme_append hlast hopen rest
    have hstatement : p.statement (c :: (cs ++ rest)) = .absent := by
      rw [← List.cons_append, Position.statement_append hlast (by simp [hs]), hs]
      rfl
    rw [List.cons_append, scan_cons hstatement, List.cons_append, hclassify, hsplit,
      ih (endsLine_split k hline) hend fun x hx => hterminated x (List.mem_cons_of_mem _ hx)]

end Scans

/-! ## Stages -/

namespace Piece

/-- The text that pieces leave.  Where the marker line has been placed before them, the first
statement leaves nothing either. -/
def remainder (marked : Bool) (ps : List Piece) : List Char :=
  if marked then ps.flatMap residue else residual ps

variable {marked : Bool} {ps qs : List Piece} {ds : List Declaration}

@[simp]
theorem remainder_nil (marked : Bool) : remainder marked [] = [] := by
  cases marked <;> rfl

@[simp]
theorem remainder_kept (marked : Bool) (cs : List Char) (ps : List Piece) :
    remainder marked (.kept cs :: ps) = cs ++ remainder marked ps := by
  cases marked <;> rfl

@[simp]
theorem remainder_statement (marked : Bool) (s : Statement) (ps : List Piece) :
    remainder marked (.statement s :: ps) =
      (if marked then [] else marker ++ ['\n']) ++ remainder true ps := by
  cases marked
  · exact (List.append_assoc marker ['\n'] _).symm
  · rfl

@[simp]
theorem remainder_unterminated (marked : Bool) (cs : List Char) (ps : List Piece) :
    remainder marked (.unterminated cs :: ps) = cs ++ remainder marked ps := by
  cases marked <;> rfl

theorem unterminated_notMem (h : declarations ps = .ok ds) (cs : List Char) :
    .unterminated cs ∉ ps := by
  induction ps generalizing ds with
  | nil => exact List.not_mem_nil
  | cons p ps ih =>
    cases p with
    | kept text => simpa using ih h
    | statement s =>
      obtain ⟨d, -, h⟩ := bind_eq_ok.1 h
      obtain ⟨ds', hds, -⟩ := bind_eq_ok.1 h
      simpa using ih hds
    | unterminated text => cases h

theorem declarations_append (h : declarations ps = .ok ds) (qs : List Piece) :
    declarations (ps ++ qs) = (ds ++ ·) <$> declarations qs := by
  induction ps generalizing ds with
  | nil =>
    cases h
    rw [List.nil_append]
    cases declarations qs <;> rfl
  | cons p ps ih =>
    cases p with
    | kept text => exact ih h
    | statement s =>
      obtain ⟨d, hd, h⟩ := bind_eq_ok.1 h
      obtain ⟨ds', hds, h⟩ := bind_eq_ok.1 h
      cases h
      rw [List.cons_append, declarations, hd, ih hds]
      cases declarations qs <;> rfl
    | unterminated text => cases h

theorem remainder_append (h : declarations ps = .ok ds) (marked : Bool) (qs : List Piece) :
    remainder marked (ps ++ qs) =
      remainder marked ps ++ remainder (marked || decide (ds ≠ [])) qs := by
  induction ps generalizing marked ds with
  | nil =>
    cases h
    simp
  | cons p ps ih =>
    cases p with
    | kept text => simp [ih h]
    | statement s =>
      obtain ⟨d, -, h⟩ := bind_eq_ok.1 h
      obtain ⟨ds', hds, h⟩ := bind_eq_ok.1 h
      cases h
      simp [ih hds]
    | unterminated text => cases h

end Piece

/-- Holds of a stage that has what two stages have, one behind the other.  The second one leaves
`unmarked`, its residual without the marker line, where the first one has declared something. -/
structure Stage.Joins (whole first second : Stage) (unmarked : List Char) : Prop where
  attributes : whole.attributes = first.attributes ++ second.attributes
  varyings : whole.varyings = first.varyings ++ second.varyings
  outputs : whole.outputs = first.outputs ++ second.outputs
  uniforms : whole.uniforms = first.uniforms ++ second.uniforms
  residual : whole.residual.toList = first.residual.toList ++
    if first.declarations = [] then second.residual.toList else unmarked

/-- A text that ends a line, and whose scan ends outside of comments and brackets, is taken apart by
itself: behind it, a text declares and leaves what it does alone, or fails with the same error. -/
theorem Stage.ofSource_append {a : String} {first : Stage} (hline : Dissection.EndsLine a.toList)
    (hfirst : ofSource a = .ok first)
    (hend : ∃ l, ScanState.ending .start a.toList = .text ⟨l, 0, 0⟩) (b : String) :
    (∀ e, ofSource (a ++ b) = .error e ↔ ofSource b = .error e) ∧
    ∀ second, ofSource b = .ok second →
      (Dissection.ofSource b).Accounts b second ∧
      ∃ whole, ofSource (a ++ b) = .ok whole ∧
        whole.Joins first second (Dissection.ofSource b).kept := by
  obtain ⟨l, hend⟩ := hend
  obtain ⟨ds, hds, hresult⟩ := bind_eq_ok.1 hfirst
  cases hresult
  obtain rfl : l = true := lineStart_of_ending hline (fun _ => rfl) hend
  have hpieces : scan .start (a ++ b).toList = scan .start a.toList ++ scan .start b.toList := by
    rw [String.toList_append]
    exact scan_append hline hend (Piece.unterminated_notMem hds) b.toList
  have hwhole : ofSource (a ++ b) = (fun ds' =>
      ⟨String.ofList (Piece.residual (scan .start a.toList) ++
        Piece.remainder (decide (ds ≠ [])) (scan .start b.toList)), ds ++ ds'⟩) <$>
      Piece.declarations (scan .start b.toList) := by
    have hresidual := Piece.remainder_append hds false (scan .start b.toList)
    rw [Bool.false_or] at hresidual
    rw [ofSource, hpieces, Piece.declarations_append hds,
      show Piece.residual (_ ++ _) = _ from hresidual]
    cases Piece.declarations (scan .start b.toList) <;> rfl
  refine ⟨fun e => ?_, fun second hsecond => ?_⟩
  · rw [hwhole, ofSource]
    cases Piece.declarations (scan .start b.toList) with
    | error e' => exact Iff.rfl
    | ok ds' => exact iff_of_false nofun nofun
  · refine ⟨Dissection.accounts_ofSource hsecond, ?_⟩
    obtain ⟨ds', hds', hresult⟩ := bind_eq_ok.1 hsecond
    cases hresult
    rw [hds'] at hwhole
    refine ⟨_, hwhole, {
      attributes := List.filterMap_append
      varyings := List.filterMap_append
      outputs := List.filterMap_append
      uniforms := List.filterMap_append
      residual := ?_ }⟩
    simp only [String.toList_ofList]
    by_cases hempty : ds = []
    · rw [if_pos hempty, decide_eq_false (not_not.2 hempty)]
      rfl
    · rw [if_neg hempty, decide_eq_true hempty]
      exact congrArg _ (Dissection.flatMap_residue _)

/-- A chunk with a block, whose first semicolon is that of a statement, and a comment at its end. -/
def blockChunk : String :=
  "uniform Lights \x7b\n uniform float a;; // x\n vec4 b;\n\x7d /* ; */\n"

/-- What the chunk declares and leaves. -/
def blockStage : Stage :=
  ⟨"uniform Lights \x7b\n@@@\n// x\n vec4 b;\n\x7d /* ; */\n",
    [.uniform ⟨"float a", none, "float", "a", 0, none⟩]⟩

/-- A text with two statements on its first line. -/
def nextChunk : String :=
  " out vec4 c; uniform vec2 d;\nvoid f() \x7b\x7d"

/-- What the second text declares and leaves. -/
def nextStage : Stage :=
  ⟨"@@@\nvoid f() \x7b\x7d", [.out ⟨"vec4 c"⟩, .uniform ⟨"vec2 d", none, "vec2", "d", 0, none⟩]⟩

/-- Behind the chunk the second text declares what it does alone, and leaves its text without another
marker.  A uniform without a name fails with the error that it has alone. -/
theorem Stage.ofSource_append_blockChunk :
    Dissection.EndsLine blockChunk.toList ∧ ofSource blockChunk = .ok blockStage ∧
      (∃ l, ScanState.ending .start blockChunk.toList = .text ⟨l, 0, 0⟩) ∧
      ofSource nextChunk = .ok nextStage ∧
      (Dissection.ofSource nextChunk).Accounts nextChunk nextStage ∧
      (∃ whole, ofSource (blockChunk ++ nextChunk) = .ok whole ∧
        whole.Joins blockStage nextStage (Dissection.ofSource nextChunk).kept ∧
        whole.residual.toList = blockStage.residual.toList ++ "void f() \x7b\x7d".toList) ∧
      ofSource "uniform float;\n" = .error (.malformed "float") ∧
      ofSource (blockChunk ++ "uniform float;\n") = .error (.malformed "float") := by
  have hline : Dissection.EndsLine blockChunk.toList := .inr (by decide +kernel)
  have hfirst : ofSource blockChunk = .ok blockStage := by decide +kernel
  have hend : ScanState.ending .start blockChunk.toList = .text ⟨true, 0, 0⟩ := by
    decide +kernel
  have hsecond : ofSource nextChunk = .ok nextStage := by decide +kernel
  have herror : ofSource "uniform float;\n" = .error (.malformed "float") := by decide +kernel
  have happend := ofSource_append hline hfirst ⟨true, hend⟩
  obtain ⟨haccounts, whole, hwhole, hjoins⟩ := (happend nextChunk).2 nextStage hsecond
  have hkept : (Dissection.ofSource nextChunk).kept = "void f() \x7b\x7d".toList := by
    decide +kernel
  have hdeclares : blockStage.declarations ≠ [] := List.cons_ne_nil _ _
  have hresidual := hjoins.residual
  rw [if_neg hdeclares, hkept] at hresidual
  exact ⟨hline, hfirst, ⟨true, hend⟩, hsecond, haccounts, ⟨whole, hwhole, hjoins, hresidual⟩,
    herror, ((happend _).1 _).2 herror⟩

end ForwardShading.Glsl
