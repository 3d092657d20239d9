import ForwardShading.Text.Search

/-!
# Declaration statements

A statement of a stage text that declares something: blanks, a keyword, the body up to the first
semicolon, and a terminator. `Statement.read` finds the statement at the front of a text;
`text_append_of_read` says that its parts are what it took from there.
-/

namespace ForwardShading.Glsl

open Text

/-- The words that begin a declaration. -/
inductive Keyword
  | attr
  | varying
  | out
  | uniform
  deriving DecidableEq, Repr

namespace Keyword

/-- A keyword as it is written. -/
def name : Keyword → String
  | attr => "attribute"
  | varying => "varying"
  | out => "out"
  | uniform => "uniform"

/-- The keyword that a word is. -/
def ofWord? (w : List Char) : Option Keyword :=
  [attr, varying, out, uniform].find? (·.name.toList == w)

theorem toList_name_of_ofWord? {w : List Char} {k : Keyword} (h : ofWord? w = some k) :
    k.name.toList = w := by
  simpa using List.find?_some h

end Keyword

/-- The white space that can stand in front of a statement. -/
def isBlank (c : Char) : Bool :=
  c == ' ' || c == '\t' || c == '\r'

/-- The white space that ends a keyword. -/
def isSpace (c : Char) : Bool :=
  isBlank c || c == '\n' || c == '\x0c'

/-- Whether a character begins a word. -/
def isWordStart (c : Char) : Bool :=
  c.isAlpha || c == '_'

/-- Whether a character goes on with a word. -/
def isWordChar (c : Char) : Bool :=
  c.isAlphanum || c == '_'

/-- A declaration statement in its parts. -/
structure Statement where
  indent : List Char
  keyword : Keyword
  /-- The text between the keyword and the first semicolon. -/
  body : List Char
  /-- The semicolons, blanks after them, and at most one newline. -/
  terminator : List Char
  deriving DecidableEq, Repr

namespace Statement

/-- The text of a statement, its parts put together. -/
def text (s : Statement) : List Char :=
  s.indent ++ s.keyword.name.toList ++ s.body ++ s.terminator

theorem text_ne_nil (s : Statement) : s.text ≠ [] := by
  obtain ⟨i, k, b, t⟩ := s
  cases k <;> simp [text, Keyword.name]

/-- At most one newline at the front of a text, and the rest. -/
def takeNewline : List Char → List Char × List Char
  | '\n' :: rest => (['\n'], rest)
  | cs => ([], cs)

/-- Splits the terminator from a text that begins with a semicolon. -/
def takeTerminator (cs : List Char) : List Char × List Char :=
  let afterMarks := cs.dropWhile (· == ';')
  let (newline, rest) := takeNewline (afterMarks.dropWhile isBlank)
  (cs.takeWhile (· == ';') ++ afterMarks.takeWhile isBlank ++ newline, rest)

theorem takeNewline_append (cs : List Char) : (takeNewline cs).1 ++ (takeNewline cs).2 = cs := by
  unfold takeNewline
  split <;> simp

theorem takeTerminator_append (cs : List Char) :
    (takeTerminator cs).1 ++ (takeTerminator cs).2 = cs := by
  simp [takeTerminator, takeNewline_append, List.takeWhile_append_dropWhile]

/-- What stands at the front of a text: no statement, one that no semicolon ends, or a statement and
what is behind it. -/
inductive Reading
  | absent
  | unterminated
  | complete (s : Statement) (rest : List Char)

/-- Looks for a statement at the front of a text. An `out` counts only where `topLevel` holds, and a
body with an opening brace belongs to a block, which is no statement of this kind. -/
def read (topLevel : Bool) (cs : List Char) : Reading :=
  let start := cs.dropWhile isBlank
  let after := start.dropWhile isWordChar
  match Keyword.ofWord? (start.takeWhile isWordChar) with
  | none => .absent
  | some k =>
    if (k = .out ∧ !topLevel) ∨ !after.head?.any isSpace then
      .absent
    else
      match breakAt ';' after with
      | none => .unterminated
      | some (body, rest) =>
        if '{' ∈ body then
          .absent
        else
          let (terminator, rest) := takeTerminator (';' :: rest)
          .complete ⟨cs.takeWhile isBlank, k, body, terminator⟩ rest

theorem text_append_of_read {topLevel : Bool} {cs rest : List Char} {s : Statement}
    (h : read topLevel cs = .complete s rest) : s.text ++ rest = cs := by
  simp only [read] at h
  split at h
  · cases h
  · rename_i k hk
    split at h
    · cases h
    · split at h
      · cases h
      · rename_i body tail hb
        split at h
        · cases h
        · injection h with hs hr
          subst hs hr
          simp only [text, List.append_assoc, takeTerminator_append,
            ← append_of_breakAt hb, Keyword.toList_name_of_ofWord? hk,
            List.takeWhile_append_dropWhile]

theorem length_lt_of_read {topLevel : Bool} {cs rest : List Char} {s : Statement}
    (h : read topLevel cs = .complete s rest) : rest.length < cs.length := by
  have hs := List.length_pos_iff.2 s.text_ne_nil
  rw [← text_append_of_read h, List.length_append]
  omega

end Statement

end ForwardShading.Glsl
