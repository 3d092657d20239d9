import ForwardShading.Glsl.Statement

/-!
# Scanning a stage text

A stage text is cut into pieces: declaration statements, and all other text. A statement opens a
line, up to blanks, or follows another statement, and stands outside of parentheses; comments and
directives hold none. Nothing is lost: the pieces put together are the text (`flatMap_text_scan`).
-/

namespace ForwardShading.Glsl

open Text

/-- A piece of a stage text. -/
inductive Piece
  | kept (text : List Char)
  | statement (s : Statement)
  /-- A statement that no semicolon ends, and all text after it. -/
  | unterminated (text : List Char)
  deriving DecidableEq, Repr

/-- The text that a piece was cut from. -/
def Piece.text : Piece → List Char
  | kept cs => cs
  | statement s => s.text
  | unterminated cs => cs

/-- What the text before a point says about the point. -/
structure Position where
  /-- Only blanks, a line comment or a directive stand between the start of the line and here. -/
  lineStart : Bool
  braces : Nat
  parens : Nat
  deriving DecidableEq, Repr

/-- The kinds of text between statements. -/
inductive Lexeme
  | newline
  | blank
  | lineComment
  | blockComment
  | directive
  | word
  | mark
  deriving DecidableEq, Repr

namespace Lexeme

/-- The kind of text that begins with `c :: cs`. -/
def classify (lineStart : Bool) (c : Char) (cs : List Char) : Lexeme :=
  if c = '\n' then newline
  else if isBlank c then blank
  else if c = '/' ∧ cs.head? = some '/' then lineComment
  else if c = '/' ∧ cs.head? = some '*' then blockComment
  else if c = '#' ∧ lineStart then directive
  else if isWordStart c then word
  else mark

/-- The inside of a block comment, from its asterisk on, with the closing mark if there is one. -/
def takeComment (cs : List Char) : List Char × List Char :=
  match breakOn ['*', '/'] (cs.drop 1) with
  | some (inside, rest) => (cs.take 1 ++ inside ++ ['*', '/'], rest)
  | none => (cs, [])

/-- Splits what follows the first character of a lexeme into the rest of the lexeme and the text
after it. -/
def split (k : Lexeme) (cs : List Char) : List Char × List Char :=
  match k with
  | newline | blank | mark => ([], cs)
  | lineComment | directive => (cs.takeWhile (· != '\n'), cs.dropWhile (· != '\n'))
  | blockComment => takeComment cs
  | word => (cs.takeWhile isWordChar, cs.dropWhile isWordChar)

theorem takeComment_append (cs : List Char) : (takeComment cs).1 ++ (takeComment cs).2 = cs := by
  unfold takeComment
  split
  · rename_i inside rest h
    have h := append_of_breakOn h
    simp only [List.append_assoc] at h ⊢
    rw [← h, List.take_append_drop]
  · simp

theorem split_append (k : Lexeme) (cs : List Char) : (k.split cs).1 ++ (k.split cs).2 = cs := by
  cases k <;> simp [split, takeComment_append, List.takeWhile_append_dropWhile]

theorem length_split_le (k : Lexeme) (cs : List Char) : (k.split cs).2.length ≤ cs.length := by
  have h := congrArg List.length (k.split_append cs)
  rw [List.length_append] at h
  omega

end Lexeme

namespace Position

/-- The point in front of a text. -/
def start : Position :=
  ⟨true, 0, 0⟩

/-- Counts a brace or parenthesis. A closing one without an opening one counts nothing. -/
def bracket (p : Position) : Char → Position
  | '{' => { p with braces := p.braces + 1 }
  | '}' => { p with braces := p.braces - 1 }
  | '(' => { p with parens := p.parens + 1 }
  | ')' => { p with parens := p.parens - 1 }
  | _ => p

/-- The point after a lexeme that begins with `c`. -/
def after (p : Position) (c : Char) : Lexeme → Position
  | .newline => { p with lineStart := true }
  | .blank | .lineComment | .directive => p
  | .blockComment | .word => { p with lineStart := false }
  | .mark => { p.bracket c with lineStart := false }

/-- The statement that begins at a point, if one can begin there. -/
def statement (p : Position) (cs : List Char) : Statement.Reading :=
  if p.lineStart ∧ p.parens = 0 then Statement.read (p.braces = 0) cs else .absent

theorem text_append_of_statement {p : Position} {cs rest : List Char} {s : Statement}
    (h : p.statement cs = .complete s rest) : s.text ++ rest = cs := by
  unfold statement at h
  split at h
  · exact Statement.text_append_of_read h
  · cases h

theorem length_lt_of_statement {p : Position} {cs rest : List Char} {s : Statement}
    (h : p.statement cs = .complete s rest) : rest.length < cs.length := by
  unfold statement at h
  split at h
  · exact Statement.length_lt_of_read h
  · cases h

end Position

/-- Cuts the text after a point into pieces. -/
def scan (p : Position) (cs : List Char) : List Piece :=
  match h : p.statement cs with
  | .complete s rest =>
    have := Position.length_lt_of_statement h
    .statement s :: scan p rest
  | .unterminated => [.unterminated cs]
  | .absent =>
    match cs with
    | [] => []
    | c :: cs =>
      let k := Lexeme.classify p.lineStart c cs
      have := k.length_split_le cs
      .kept (c :: (k.split cs).1) :: scan (p.after c k) (k.split cs).2
termination_by cs.length
decreasing_by all_goals grind

theorem flatMap_text_scan (p : Position) (cs : List Char) : (scan p cs).flatMap Piece.text = cs := by
  fun_induction scan p cs with
  | case1 p cs s rest h _ ih => simp [Piece.text, ih, Position.text_append_of_statement h]
  | case2 => simp [Piece.text]
  | case3 => rfl
  | case4 p c cs _ k _ ih => simp [Piece.text, ih, Lexeme.split_append]

end ForwardShading.Glsl
