/-!
# Fixed-function state

The states of a draw that no shader computes, and the range of vertices that it draws.
-/

namespace ForwardShading

/-- What a color is multiplied with before it is blended. -/
inductive BlendFactor
  | zero
  | one
  | src
  | oneMinusSrc
  | srcAlpha
  | oneMinusSrcAlpha
  | dst
  | oneMinusDst
  | dstAlpha
  | oneMinusDstAlpha
  deriving DecidableEq, Repr

/-- How the two weighted colors are combined. -/
inductive BlendOperation
  | add
  | subtract
  | reverseSubtract
  | min
  | max
  deriving DecidableEq, Repr

/-- The blending of a color or of its alpha. -/
structure BlendComponent where
  source : BlendFactor := .one
  target : BlendFactor := .zero
  operation : BlendOperation := .add
  deriving DecidableEq, Repr

/-- The blending of a draw into its target. -/
structure BlendState where
  color : BlendComponent := {}
  alpha : BlendComponent := {}
  deriving DecidableEq, Repr

namespace BlendState

/-- Blends by the alpha of the source. -/
def alphaBlending : BlendState :=
  let blend : BlendComponent := { source := .srcAlpha, target := .oneMinusSrcAlpha }
  ⟨blend, blend⟩

/-- Adds the source to what the target holds. -/
def additive : BlendState :=
  let sum : BlendComponent := { source := .one, target := .one }
  ⟨sum, sum⟩

end BlendState

/-- The comparison by which a test passes. -/
inductive CompareFunction
  | never
  | less
  | equal
  | lessEqual
  | greater
  | notEqual
  | greaterEqual
  | always
  deriving DecidableEq, Repr

/-- The depth test of a draw, and whether the draw writes depth. -/
structure DepthState where
  test : Bool := true
  write : Bool := true
  compare : CompareFunction := .lessEqual
  deriving DecidableEq, Repr

/-- What becomes of a stencil value. -/
inductive StencilOperation
  | keep
  | zero
  | replace
  | increment
  | decrement
  | invert
  deriving DecidableEq, Repr

/-- The stencil test of faces that look one way. -/
structure StencilFace where
  compare : CompareFunction := .always
  reference : UInt32 := 0
  readMask : UInt32 := 0xff
  writeMask : UInt32 := 0xff
  fail : StencilOperation := .keep
  depthFail : StencilOperation := .keep
  pass : StencilOperation := .keep
  deriving DecidableEq, Repr

/-- The stencil tests of both sides of a face. -/
structure StencilState where
  front : StencilFace := {}
  back : StencilFace := {}
  deriving DecidableEq, Repr

/-- The faces that are not drawn. -/
inductive CullMode
  | none
  | back
  | front
  deriving DecidableEq, Repr

/-- The mode for faces whose winding is turned around. -/
def CullMode.flipped : CullMode → CullMode
  | none => none
  | back => front
  | front => back

/-- How vertices form points, lines and triangles. -/
inductive Topology
  | pointList
  | lineList
  | lineStrip
  | triangleList
  | triangleStrip
  deriving DecidableEq, Repr

/-- The range of vertices or indices that a draw covers. -/
structure Primitive where
  topology : Topology := .triangleList
  base : UInt32 := 0
  count : UInt32 := 0
  indexed : Bool := false
  deriving DecidableEq, Repr

end ForwardShading
