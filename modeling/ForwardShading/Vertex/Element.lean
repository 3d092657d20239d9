/-!
# Vertex elements

The format of the data that feeds a vertex attribute. Integer data that the shader does not itself
declare as integers has to be received as such and copied to floating-point numbers.
-/

namespace ForwardShading

/-- The number formats of vertex data. -/
inductive VertexDataType
  | int8
  | uint8
  | int16
  | uint16
  | int32
  | uint32
  | float16
  | float32
  deriving DecidableEq, Repr

namespace VertexDataType

/-- Whether the numbers are floating-point numbers. -/
def isFloat : VertexDataType → Bool
  | float16 | float32 => true
  | _ => false

/-- Whether the numbers are integers with a sign. -/
def isSignedInt : VertexDataType → Bool
  | int8 | int16 | int32 => true
  | _ => false

end VertexDataType

/-- The format of the data that feed one attribute. -/
structure VertexElement where
  type : VertexDataType
  /-- Integers are scaled to the unit interval before the shader sees them. -/
  normalize : Bool
  /-- The shader itself declares an integer attribute. -/
  asInt : Bool
  deriving DecidableEq, Repr

namespace VertexElement

/-- Whether the shader receives integers that have to be copied to floating-point numbers. -/
def needsIntegerAttribute (e : VertexElement) : Bool :=
  !e.type.isFloat && !e.normalize && !e.asInt

/-- The integer type of an attribute with the given number of components. -/
def integerType (e : VertexElement) (components : Nat) : String :=
  let letter := if e.type.isSignedInt then "i" else "u"
  if components = 1 then
    if e.type.isSignedInt then "int" else "uint"
  else
    letter ++ "vec" ++ toString components

end VertexElement

end ForwardShading
