import ForwardShading.Glsl.Stage

/-!
# The version line

The `#version` directive has to come first in a stage text, so generated text goes behind its line.
`splice` puts a declaration block into a residual: at the marker, and behind the version line where
there is no marker.
-/

namespace ForwardShading.Glsl

open Text

/-- Splits a text behind its version line. A text that does not begin with the directive, up to
white space, is split in front. -/
def splitVersion (cs : List Char) : List Char × List Char :=
  match stripStart "#version".toList (trimStart cs) with
  | none => ([], cs)
  | some _ =>
    match breakAt '\n' (trimStart cs) with
    | none => (cs, [])
    | some (line, rest) => (cs.takeWhile isWhite ++ line ++ ['\n'], rest)

theorem splitVersion_append (cs : List Char) : (splitVersion cs).1 ++ (splitVersion cs).2 = cs := by
  unfold splitVersion
  split
  · rfl
  · split
    · simp
    · rename_i line rest h
      simp only [List.append_assoc, List.singleton_append, ← append_of_breakAt h, trimStart,
        List.takeWhile_append_dropWhile]

/-- A newline where a text is not empty and does not end with one. -/
def missingNewline (cs : List Char) : List Char :=
  if cs = [] ∨ cs.getLast? = some '\n' then [] else ['\n']

/-- Inserts a block behind the version line, or in front where there is none. -/
def insertAfterVersion (cs block : List Char) : List Char :=
  let (head, tail) := splitVersion cs
  head ++ missingNewline head ++ block ++ tail

/-- Inserts a block at the first marker of a residual, else behind the version line. -/
def splice (residual block : String) : String :=
  String.ofList <|
    match breakOn marker residual.toList with
    | some (before, after) => before ++ block.toList ++ after
    | none => insertAfterVersion residual.toList block.toList

end ForwardShading.Glsl
