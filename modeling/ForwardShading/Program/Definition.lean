import ForwardShading.Binding.ResourceSet
import ForwardShading.Glsl.Define
import ForwardShading.OrderedMap
import ForwardShading.Vertex.Element
import ForwardShading.Vertex.Semantic

/-!
# Program definitions

What a program is built from: its two stage texts with the meaning of each vertex attribute, and the
surroundings it is built for.
-/

namespace ForwardShading

/-- The kinds of declarations that a program is written with. -/
inductive Dialect
  /-- Loose uniforms, and varyings that are linked by name. -/
  | fixedBinding
  /-- Uniform blocks, textures apart from their samplers, and a location for each varying. -/
  | explicitBinding
  deriving DecidableEq, Repr

/-- Whether the uniforms of an object live in a uniform buffer. -/
def Dialect.usesUniformBuffers : Dialect → Bool
  | fixedBinding => false
  | explicitBinding => true

/-- The stage texts of a program and the semantics of its attributes. -/
structure Definition where
  name : String
  vertex : String
  fragment : String
  attributes : OrderedMap String Semantic
  deriving DecidableEq

/-- The definition with defines inserted in both texts. -/
def Definition.withDefines (d : Definition) (defines : List Glsl.Define) : Definition :=
  { d with
    vertex := Glsl.Define.insertAll defines d.vertex
    fragment := Glsl.Define.insertAll defines d.fragment }

/-- What a program finds when it is built: bound resources and the formats of vertex data. -/
structure Surroundings where
  tiers : ResourceTiers
  elements : OrderedMap Semantic VertexElement
  deriving DecidableEq

end ForwardShading
