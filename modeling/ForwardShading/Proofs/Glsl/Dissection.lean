import ForwardShading.Glsl.Stage
import ForwardShading.Proofs.Checked
import ForwardShading.Proofs.Text.Search

/-!
# Dissected stage texts

A stage text is dissected into its declaration statements and the text kept around them
(`Dissection`).  The statements have the parts that the grammar gives them (`Statement.WellFormed`)
and begin where a statement can begin (`Dissection.Placed`).  Taking a stage text apart loses and
alters nothing (`Stage.exists_dissection`).
-/

namespace ForwardShading.Glsl

open Text

/-- The keyword of a declaration. -/
def Declaration.keyword : Declaration → Keyword
  | attr _ => .attr
  | varying _ => .varying
  | out _ => .out
  | uniform _ => .uniform

/-! ## The parts of a statement -/

/-- The parts of a statement as the grammar gives them.  That the keyword is one is in its type. -/
structure Statement.WellFormed (s : Statement) : Prop where
  indent : ∀ c ∈ s.indent, isBlank c
  body_start : s.body.head?.any isSpace
  body_marks : ';' ∉ s.body ∧ '{' ∉ s.body
  terminator : ∃ marks blanks newline, s.terminator = marks ++ blanks ++ newline ∧
    marks ≠ [] ∧ (∀ c ∈ marks, c = ';') ∧ (∀ c ∈ blanks, isBlank c) ∧
      (newline = [] ∨ newline = ['\n'])

namespace Statement

variable {topLevel : Bool} {cs rest : List Char} {s : Statement}

/-- All that a complete reading says of the text that it was read from. -/
theorem exists_of_read (h : read topLevel cs = .complete s rest) :
    s.indent = cs.takeWhile isBlank ∧
    ∃ after tail, after.head?.any isSpace ∧ breakAt ';' after = some (s.body, tail) ∧
      '{' ∉ s.body ∧ s.terminator = (takeTerminator (';' :: tail)).1 := by
  simp only [read] at h
  split at h
  · cases h
  · split at h
    · cases h
    · rename_i hspace
      split at h
      · cases h
      · rename_i body tail hb
        split at h
        · cases h
        · rename_i hbrace
          injection h with hs hr
          subst hs
          exact ⟨rfl, _, tail, by simpa using (not_or.1 hspace).2, hb, hbrace, rfl⟩

theorem takeNewline_fst (cs : List Char) :
    (takeNewline cs).1 = [] ∨ (takeNewline cs).1 = ['\n'] := by
  unfold takeNewline
  split
  · exact .inr rfl
  · exact .inl rfl

theorem wellFormed_of_read (h : read topLevel cs = .complete s rest) : s.WellFormed := by
  obtain ⟨hindent, after, tail, hspace, hb, hbrace, hterminator⟩ := exists_of_read h
  have hsemicolon : ';' ∉ s.body := notMem_of_breakAt hb
  refine ⟨?_, ?_, ⟨hsemicolon, hbrace⟩, ?_⟩
  · rw [hindent]
    exact fun c hc => List.mem_takeWhile_imp hc
  · rw [append_of_breakAt hb] at hspace
    cases hbody : s.body with
    | nil =>
      rw [hbody] at hspace
      cases hspace
    | cons c cs => simpa [hbody] using hspace
  · refine ⟨_, _, _, hterminator, ?_, fun c hc => ?_, fun c hc => ?_, takeNewline_fst _⟩
    · simp
    · simpa using List.mem_takeWhile_imp hc
    · exact List.mem_takeWhile_imp hc

/-- Blanks in front of a text neither make nor hide a statement. -/
theorem read_cons_blank {c : Char} (hc : isBlank c) (cs : List Char) :
    read topLevel (c :: cs) = .absent ↔ read topLevel cs = .absent := by
  simp only [read, List.dropWhile_cons_of_pos hc]
  split
  · rfl
  · split
    · rfl
    · split
      · simp
      · split <;> simp

/-- A statement begins with a word, up to blanks. -/
theorem read_eq_absent (h : (cs.dropWhile isBlank).takeWhile isWordChar = []) :
    read topLevel cs = .absent := by
  simp only [read, h]
  rfl

theorem keyword_of_declaration {x : Declaration} (h : s.declaration = .ok x) :
    x.keyword = s.keyword := by
  obtain ⟨indent, keyword, body, terminator⟩ := s
  cases keyword <;>
  · obtain ⟨a, -, rfl⟩ := map_eq_ok.1 h
    rfl

end Statement

namespace Position

variable {p : Position} {cs : List Char}

theorem statement_eq_absent (h : (cs.dropWhile isBlank).takeWhile isWordChar = []) :
    p.statement cs = .absent := by
  unfold statement
  split
  · exact Statement.read_eq_absent h
  · rfl

theorem statement_eq_absent_of_lineStart (h : p.lineStart = false) (cs : List Char) :
    p.statement cs = .absent := by
  rw [statement, if_neg (by simp [h])]

theorem statement_cons_blank {c : Char} (hc : isBlank c) (cs : List Char) :
    p.statement (c :: cs) = .absent ↔ p.statement cs = .absent := by
  unfold statement
  split
  · exact Statement.read_cons_blank hc cs
  · rfl

theorem statement_dropWhile_newline (p : Position) (cs : List Char) :
    p.statement (cs.dropWhile (· != '\n')) = .absent := by
  refine statement_eq_absent ?_
  have hhead := List.head?_dropWhile_not (· != '\n') cs
  cases h : cs.dropWhile (· != '\n') with
  | nil => rfl
  | cons c rest =>
    obtain rfl : c = '\n' := by simpa [h] using hhead
    rfl

theorem wellFormed_of_statement {rest : List Char} {s : Statement}
    (h : p.statement cs = .complete s rest) : s.WellFormed := by
  unfold statement at h
  split at h
  · exact Statement.wellFormed_of_read h
  · cases h

end Position

namespace Lexeme

variable {lineStart : Bool} {c : Char} {cs : List Char}

theorem eq_of_classify_eq_newline (h : classify lineStart c cs = newline) : c = '\n' := by
  unfold classify at h
  split_ifs at h with hc
  exact hc

theorem isBlank_of_classify (h : classify lineStart c cs = blank) : isBlank c = true := by
  unfold classify at h
  split_ifs at h with _ hc
  exact hc

theorem eq_of_classify_eq_blockComment (h : classify lineStart c cs = blockComment) :
    c = '/' ∧ cs.head? = some '*' := by
  unfold classify at h
  split_ifs at h with _ _ _ hc
  exact hc

end Lexeme

/-! ## Dissections -/

/-- A statement with the text kept in front of it. -/
structure Cut where
  before : List Char
  statement : Statement

/-- A text as its statements, each with the text in front of it, and the text behind the last. -/
structure Dissection where
  cuts : List Cut
  last : List Char

namespace Dissection

/-- The text that was taken apart. -/
def text (d : Dissection) : List Char :=
  (d.cuts.flatMap fun c => c.before ++ c.statement.text) ++ d.last

/-- The statements that are cut out. -/
def statements (d : Dissection) : List Statement :=
  d.cuts.map (·.statement)

/-- The bodies of the statements with a keyword. -/
def bodies (d : Dissection) (k : Keyword) : List (List Char) :=
  (d.statements.filter (·.keyword = k)).map (·.body)

/-- The text kept. -/
def kept (d : Dissection) : List Char :=
  d.cuts.flatMap (·.before) ++ d.last

/-- The text kept, with the marker line in place of the first statement. -/
def residual (d : Dissection) : List Char :=
  match d.cuts with
  | [] => d.last
  | c :: cs => c.before ++ marker ++ '\n' :: kept ⟨cs, d.last⟩

/-- Puts text in front of a dissection. -/
def prepend (kept : List Char) (d : Dissection) : Dissection :=
  match d.cuts with
  | [] => ⟨[], kept ++ d.last⟩
  | c :: cs => ⟨⟨kept ++ c.before, c.statement⟩ :: cs, d.last⟩

/-- Joins the pieces between statements. -/
def ofPieces : List Piece → Dissection
  | [] => ⟨[], []⟩
  | .statement s :: ps => ⟨⟨[], s⟩ :: (ofPieces ps).cuts, (ofPieces ps).last⟩
  | p :: ps => (ofPieces ps).prepend p.text

/-- The dissection of a stage text. -/
def ofSource (source : String) : Dissection :=
  ofPieces (scan .start source.toList)

/-- Holds of a text that leaves off at the start of a line. -/
def EndsLine (cs : List Char) : Prop :=
  cs = [] ∨ cs.getLast? = some '\n'

/-- Each statement stands at the start of the text, behind a newline, or behind another statement. -/
def Placed (d : Dissection) : Prop :=
  ∀ c ∈ d.cuts, EndsLine c.before

@[simp]
theorem prepend_nil (d : Dissection) : d.prepend [] = d := by
  obtain ⟨cuts, last⟩ := d
  cases cuts <;> rfl

@[simp]
theorem prepend_prepend (as bs : List Char) (d : Dissection) :
    (d.prepend bs).prepend as = d.prepend (as ++ bs) := by
  obtain ⟨cuts, last⟩ := d
  cases cuts <;> simp [prepend]

@[simp]
theorem statements_prepend (kept : List Char) (d : Dissection) :
    (d.prepend kept).statements = d.statements := by
  obtain ⟨cuts, last⟩ := d
  cases cuts <;> rfl

@[simp]
theorem text_prepend (kept : List Char) (d : Dissection) :
    (d.prepend kept).text = kept ++ d.text := by
  obtain ⟨cuts, last⟩ := d
  cases cuts <;> simp [prepend, text]

theorem kept_prepend (kept : List Char) (d : Dissection) :
    (d.prepend kept).kept = kept ++ d.kept := by
  obtain ⟨cuts, last⟩ := d
  cases cuts <;> simp [prepend, Dissection.kept]

@[simp]
theorem residual_prepend (kept : List Char) (d : Dissection) :
    (d.prepend kept).residual = kept ++ d.residual := by
  obtain ⟨cuts, last⟩ := d
  cases cuts <;> simp [prepend, residual]

theorem text_ofPieces (ps : List Piece) : (ofPieces ps).text = ps.flatMap Piece.text := by
  induction ps with
  | nil => rfl
  | cons p ps ih =>
    rw [List.flatMap_cons, ← ih]
    cases p with
    | kept cs | unterminated cs => exact text_prepend _ _
    | statement s => simp [ofPieces, text, Piece.text]

theorem text_ofSource (source : String) : (ofSource source).text = source.toList := by
  rw [ofSource, text_ofPieces, flatMap_text_scan]

theorem flatMap_residue (ps : List Piece) : ps.flatMap Piece.residue = (ofPieces ps).kept := by
  induction ps with
  | nil => rfl
  | cons p ps ih =>
    rw [List.flatMap_cons, ih]
    cases p with
    | kept cs | unterminated cs => exact (kept_prepend _ _).symm
    | statement s => rfl

theorem residual_ofPieces (ps : List Piece) : Piece.residual ps = (ofPieces ps).residual := by
  induction ps with
  | nil => rfl
  | cons p ps ih =>
    cases p with
    | kept cs | unterminated cs =>
      calc cs ++ Piece.residual ps = cs ++ (ofPieces ps).residual := by rw [ih]
        _ = ((ofPieces ps).prepend cs).residual := (residual_prepend _ _).symm
    | statement s =>
      calc marker ++ '\n' :: ps.flatMap Piece.residue = marker ++ '\n' :: (ofPieces ps).kept := by
            rw [flatMap_residue]
        _ = (ofPieces (.statement s :: ps)).residual := rfl

/-! ### Where statements begin -/

theorem endsLine_newline (cs : List Char) : EndsLine (cs ++ ['\n']) :=
  .inr (by simp)

/-- Behind a lexeme where no statement begins, none begins either unless a line does. -/
theorem statement_after_of_ne {p : Position} {c : Char} {cs : List Char}
    (h : p.statement (c :: cs) = .absent) (hk : Lexeme.classify p.lineStart c cs ≠ .newline) :
    let k := Lexeme.classify p.lineStart c cs
    (p.after c k).statement (k.split cs).2 = .absent := by
  intro k
  cases hk' : k with
  | newline => exact absurd hk' hk
  | blank => exact (Position.statement_cons_blank (Lexeme.isBlank_of_classify hk') cs).1 h
  | lineComment | directive => exact p.statement_dropWhile_newline cs
  | blockComment | word | mark => exact Position.statement_eq_absent_of_lineStart rfl _

theorem statement_after {p : Position} {c : Char} {cs : List Char}
    (h : p.statement (c :: cs) = .absent) (kept : List Char) :
    let k := Lexeme.classify p.lineStart c cs
    (p.after c k).statement (k.split cs).2 = .absent ∨ EndsLine (kept ++ c :: (k.split cs).1) := by
  intro k
  by_cases hk : k = .newline
  · rw [hk, Lexeme.eq_of_classify_eq_newline hk]
    exact .inr (endsLine_newline kept)
  · exact .inl (statement_after_of_ne h hk)

theorem placed_scan {p : Position} {cs kept : List Char}
    (h : p.statement cs = .absent ∨ EndsLine kept) :
    ((ofPieces (scan p cs)).prepend kept).Placed := by
  fun_induction scan p cs generalizing kept with
  | case1 p cs s rest hs _ ih =>
    have hkept : EndsLine kept := h.resolve_left (by rw [hs]; exact Statement.Reading.noConfusion)
    have hrest := @ih [] (.inr (.inl rfl))
    rw [prepend_nil] at hrest
    intro c hc
    rcases List.mem_cons.1 hc with rfl | hc
    · simpa using hkept
    · exact hrest c hc
  | case2 => exact fun c hc => absurd hc List.not_mem_nil
  | case3 => exact fun c hc => absurd hc List.not_mem_nil
  | case4 p c cs hs k _ =>
    rename_i ih
    have hnext := ih (statement_after hs kept)
    rw [← prepend_prepend] at hnext
    exact hnext

theorem placed_ofSource (source : String) : (ofSource source).Placed := by
  have h := @placed_scan .start source.toList [] (.inr (.inl rfl))
  rwa [prepend_nil] at h

theorem wellFormed_scan {p : Position} {cs : List Char} :
    ∀ s ∈ (ofPieces (scan p cs)).statements, s.WellFormed := by
  fun_induction scan p cs with
  | case1 p cs s rest hs _ ih =>
    intro t ht
    rcases List.mem_cons.1 ht with rfl | ht
    · exact Position.wellFormed_of_statement hs
    · exact ih t ht
  | case2 => exact fun s hs => absurd hs List.not_mem_nil
  | case3 => exact fun s hs => absurd hs List.not_mem_nil
  | case4 p c cs hs k _ ih => simpa only [ofPieces, statements_prepend] using ih

/-! ### What the statements declare -/

theorem declarations_ofPieces {ps : List Piece} {ds : List Declaration}
    (h : Piece.declarations ps = .ok ds) :
    List.Forall₂ (fun s d => s.declaration = .ok d) (ofPieces ps).statements ds := by
  induction ps generalizing ds with
  | nil =>
    cases h
    exact .nil
  | cons p ps ih =>
    cases p with
    | kept cs =>
      rw [ofPieces, statements_prepend]
      · exact ih h
      · exact fun _ => Piece.noConfusion
    | statement s =>
      obtain ⟨d, hd, h⟩ := bind_eq_ok.1 h
      obtain ⟨ds', hds, h⟩ := bind_eq_ok.1 h
      cases h
      exact .cons hd (ih hds)
    | unterminated cs => cases h

/-- The bodies with a keyword are read, in order, as the declarations of one kind. -/
theorem mapM_bodies {α : Type} {d : Dissection} {ds : List Declaration} {k : Keyword}
    {parse : List Char → Except DeclarationError α} {make : α → Declaration}
    {select : Declaration → Option α}
    (hread : ∀ s : Statement, s.keyword = k → s.declaration = make <$> parse s.body)
    (hmake : ∀ a, select (make a) = some a) (hother : ∀ x, x.keyword ≠ k → select x = none)
    (h : List.Forall₂ (fun s x => s.declaration = .ok x) d.statements ds) :
    (d.bodies k).mapM parse = .ok (ds.filterMap select) := by
  unfold bodies
  generalize d.statements = ss at h
  induction h with
  | nil => rfl
  | @cons s x ss xs hx _ ih =>
    by_cases hk : s.keyword = k
    · obtain ⟨a, ha, rfl⟩ := map_eq_ok.1 ((hread s hk).symm.trans hx)
      rw [List.filter_cons_of_pos (by simpa using hk), List.map_cons, List.mapM_cons, ha, ih,
        List.filterMap_cons_some (hmake a)]
      rfl
    · have hselect := hother x (by rwa [Statement.keyword_of_declaration hx])
      rw [List.filter_cons_of_neg (by simpa using hk), ih, List.filterMap_cons_none hselect]

/-- Holds of a dissection that accounts for all of a text, and for all of the stage read from it. -/
structure Accounts (d : Dissection) (source : String) (stage : Stage) : Prop where
  text : d.text = source.toList
  wellFormed : ∀ s ∈ d.statements, s.WellFormed
  placed : d.Placed
  residual : stage.residual.toList = d.residual
  declarations : d.statements.mapM Statement.declaration = .ok stage.declarations
  attributes : (d.bodies .attr).mapM Attribute.parse = .ok stage.attributes
  varyings : (d.bodies .varying).mapM Varying.parse = .ok stage.varyings
  outputs : (d.bodies .out).mapM Output.parse = .ok stage.outputs
  uniforms : (d.bodies .uniform).mapM Uniform.parse = .ok stage.uniforms

end Dissection

/-- The dissection of a stage text that can be read accounts for all of it. -/
theorem Dissection.accounts_ofSource {source : String} {stage : Stage}
    (h : Stage.ofSource source = .ok stage) : (ofSource source).Accounts source stage := by
  obtain ⟨ds, hds, h⟩ := bind_eq_ok.1 h
  cases h
  have hread := declarations_ofPieces hds
  exact {
    text := text_ofSource source
    wellFormed := wellFormed_scan
    placed := placed_ofSource source
    residual := by rw [String.toList_ofList, residual_ofPieces]; rfl
    declarations := mapM_eq_ok.2 hread
    attributes := mapM_bodies (by rintro ⟨⟩ rfl; rfl) (fun _ => rfl)
      (by rintro ⟨⟩ h <;> simp_all [Declaration.keyword]) hread
    varyings := mapM_bodies (by rintro ⟨⟩ rfl; rfl) (fun _ => rfl)
      (by rintro ⟨⟩ h <;> simp_all [Declaration.keyword]) hread
    outputs := mapM_bodies (by rintro ⟨⟩ rfl; rfl) (fun _ => rfl)
      (by rintro ⟨⟩ h <;> simp_all [Declaration.keyword]) hread
    uniforms := mapM_bodies (by rintro ⟨⟩ rfl; rfl) (fun _ => rfl)
      (by rintro ⟨⟩ h <;> simp_all [Declaration.keyword]) hread }

/-- A text that declares nothing is left as it is. -/
theorem Stage.residual_eq_of_declarations_eq_nil {source : String} {stage : Stage}
    (h : ofSource source = .ok stage) (hnone : stage.declarations = []) :
    stage.residual = source := by
  have haccounts := Dissection.accounts_ofSource h
  have hcuts : (Dissection.ofSource source).cuts = [] := by
    have hread := mapM_eq_ok.1 (hnone ▸ haccounts.declarations)
    exact List.map_eq_nil_iff.1 (List.forall₂_nil_right_iff.1 hread)
  apply String.toList_injective
  rw [haccounts.residual, ← haccounts.text, Dissection.residual, Dissection.text, hcuts]
  rfl

/-- Taking a stage text apart loses and alters nothing: the text is the kept text with its statements
in between, the residual is the kept text with one marker line, and the declarations are those of the
statements. -/
theorem Stage.exists_dissection {source : String} {stage : Stage}
    (h : ofSource source = .ok stage) : ∃ d : Dissection, d.Accounts source stage :=
  ⟨_, Dissection.accounts_ofSource h⟩

theorem Stage.exists_dissection_oneLine :
    ∃ stage, ofSource "// a\n uniform float a; uniform vec2 b;;\nvoid main() {}\n" = .ok stage ∧
      stage.residual = "// a\n@@@\nvoid main() {}\n" ∧
        ∃ d : Dissection,
          d.Accounts "// a\n uniform float a; uniform vec2 b;;\nvoid main() {}\n" stage := by
  have h : ofSource "// a\n uniform float a; uniform vec2 b;;\nvoid main() {}\n" =
      .ok ⟨"// a\n@@@\nvoid main() {}\n",
        [.uniform ⟨"float a", none, "float", "a", 0, none⟩,
          .uniform ⟨"vec2 b", none, "vec2", "b", 0, none⟩]⟩ := by
    decide +kernel
  exact ⟨_, h, rfl, exists_dissection h⟩

end ForwardShading.Glsl
