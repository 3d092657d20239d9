import ForwardShading.Single.Matrix

/-!
# Uniform values

The value of a named uniform: numbers, which are lists of 32-bit words, or a texture.
-/

namespace ForwardShading

/-- A texture of the device. -/
structure TextureHandle where
  id : UInt64
  deriving DecidableEq, Repr

/-- A value as it is given to a uniform. -/
inductive UniformValue
  | float (a : Scalar)
  | int (n : Int32)
  | vec2 (v : Vec2)
  | vec3 (v : Vec3)
  | vec4 (v : Vec4)
  | mat3 (m : Mat3)
  | mat4 (m : Mat4)
  | floats (as : List Scalar)
  | mat4s (ms : List Mat4)
  | texture (t : TextureHandle)
  deriving DecidableEq, Repr

namespace UniformValue

/-- The words of a numeric value, column by column. -/
def words? : UniformValue → Option (List UInt32)
  | float a => some [a.bits]
  | int n => some [n.toUInt32]
  | vec2 v => some (v.toList.map (·.bits))
  | vec3 v => some (v.toList.map (·.bits))
  | vec4 v => some (v.toList.map (·.bits))
  | mat3 m => some (m.toList.map (·.bits))
  | mat4 m => some (m.toList.map (·.bits))
  | floats as => some (as.map (·.bits))
  | mat4s ms => some ((ms.flatMap Mat4.toList).map (·.bits))
  | texture _ => none

/-- The texture of a value that is one. -/
def texture? : UniformValue → Option TextureHandle
  | texture t => some t
  | _ => none

end UniformValue

end ForwardShading
