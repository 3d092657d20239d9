import ForwardShading.Program.Block

/-!
# Programs

A program is built from its definition: both stage texts are taken apart, their declarations are
linked, and the declarations of the dialect are put back in their place.
-/

namespace ForwardShading

/-- A program that the device can run. -/
structure Program where
  name : String
  dialect : Dialect
  vertex : String
  fragment : String
  attributes : OrderedMap Nat String
  layout : ObjectLayout
  deriving DecidableEq

/-- The stages of a program with what they declare together. -/
structure LinkedStages where
  vertex : Glsl.Stage
  fragment : Glsl.Stage
  interface : Interface

namespace LinkedStages

/-- Takes the stage texts of a definition apart and links them. -/
def ofDefinition (d : Definition) (o : Surroundings) : Except DeclarationError LinkedStages := do
  let vertex ← Glsl.Stage.ofSource d.vertex
  let fragment ← Glsl.Stage.ofSource d.fragment
  let interface ← Interface.link d o vertex fragment
  return ⟨vertex, fragment, interface⟩

/-- The program of linked stages: both residuals with their declaration blocks. -/
def program (name : String) (dialect : Dialect) (s : LinkedStages) : Program where
  name
  dialect
  vertex := Glsl.splice s.vertex.residual (BlockItem.blockText (s.interface.vertexBlock dialect))
  fragment :=
    Glsl.splice s.fragment.residual (BlockItem.blockText (s.interface.fragmentBlock dialect))
  attributes := s.interface.attributeNames
  layout := s.interface.layout

end LinkedStages

/-- Builds a program, or gives the first error with its name. -/
def Program.build (dialect : Dialect) (d : Definition) (o : Surroundings) :
    Except ShaderError Program :=
  match LinkedStages.ofDefinition d o with
  | .ok s => .ok (s.program d.name dialect)
  | .error cause => .error ⟨d.name, cause⟩

end ForwardShading
