import ForwardShading.Glsl.Declaration
import ForwardShading.Glsl.Scan

/-!
# Stages

A stage is what its text declares, in source order, and the text left when the declarations are
taken out. The marker line stands in that residual where the first declaration was.
-/

namespace ForwardShading.Glsl

open Text

/-- A declaration that has been read. -/
inductive Declaration
  | attr (a : Attribute)
  | varying (v : Varying)
  | out (o : Output)
  | uniform (u : Uniform)
  deriving DecidableEq, Repr

/-- Reads the body of a statement as its keyword says. -/
def Statement.declaration (s : Statement) : Except DeclarationError Declaration :=
  match s.keyword with
  | .attr => .attr <$> Attribute.parse s.body
  | .varying => .varying <$> Varying.parse s.body
  | .out => .out <$> Output.parse s.body
  | .uniform => .uniform <$> Uniform.parse s.body

/-- The text that stands in a residual for the declarations. -/
def marker : List Char :=
  "@@@".toList

namespace Piece

/-- The declarations of a list of pieces, or the first error. -/
def declarations : List Piece → Except DeclarationError (List Declaration)
  | [] => .ok []
  | .kept _ :: ps => declarations ps
  | .statement s :: ps => do
    let d ← s.declaration
    let ds ← declarations ps
    return d :: ds
  | .unterminated cs :: _ => .error (.malformed (String.ofList (trim cs)))

/-- The part of a piece that its declaration leaves behind. -/
def residue : Piece → List Char
  | kept cs => cs
  | statement _ => []
  | unterminated cs => cs

/-- The text that the pieces leave, with the marker line in place of the first statement. -/
def residual : List Piece → List Char
  | [] => []
  | .statement _ :: ps => marker ++ '\n' :: ps.flatMap residue
  | p :: ps => p.residue ++ residual ps

end Piece

/-- A stage text taken apart: the text that is left, and what was declared. -/
structure Stage where
  residual : String
  declarations : List Declaration
  deriving DecidableEq, Repr

namespace Stage

/-- Takes a stage text apart, or gives the error of its first declaration that cannot be read. -/
def ofSource (source : String) : Except DeclarationError Stage := do
  let pieces := scan .start source.toList
  let declarations ← Piece.declarations pieces
  return ⟨String.ofList (Piece.residual pieces), declarations⟩

/-- The attributes that a stage declares, in source order. -/
def attributes (s : Stage) : List Attribute :=
  s.declarations.filterMap fun | .attr a => some a | _ => none

/-- The varyings that a stage declares, in source order. -/
def varyings (s : Stage) : List Varying :=
  s.declarations.filterMap fun | .varying v => some v | _ => none

/-- The outputs that a stage declares, in source order. -/
def outputs (s : Stage) : List Output :=
  s.declarations.filterMap fun | .out o => some o | _ => none

/-- The uniforms that a stage declares, in source order. -/
def uniforms (s : Stage) : List Uniform :=
  s.declarations.filterMap fun | .uniform u => some u | _ => none

/-- Whether the marker occurs anywhere in the residual. -/
def hasMarker (s : Stage) : Bool :=
  occursIn marker s.residual.toList

end Stage

end ForwardShading.Glsl
