import ForwardShading.Device.UniformValue

/-!
# Lights

A light with its place in the world, the shadow map rendered for it, and the texture it projects.
Lights shine along their negative second axis.
-/

namespace ForwardShading

/-- The number by which a light is known. -/
abbrev LightId := Nat

/-- The kinds of lights. -/
inductive LightKind
  | directional
  | omni
  | spot
  deriving DecidableEq, Repr

/-- The shape of a light. All but a point have an area. -/
inductive LightShape
  | punctual
  | rect
  | disk
  | sphere
  deriving DecidableEq, Repr

/-- The cascades of a directional shadow: a matrix and a distance for each, and how they blend. -/
structure Cascades where
  palette : Vector Mat4 4 := Vector.replicate 4 .identity
  distances : Vec4 := .zero
  count : UInt32 := 1
  blend : Scalar := 0
  deriving DecidableEq, Repr

/-- A shadow map with what is needed to read it. -/
structure Shadow where
  map : TextureHandle
  transform : Mat4 := .identity
  resolution : Scalar := 1024
  bias : Scalar := 0.05
  normalBias : Scalar := 0
  intensity : Scalar := 1
  penumbraSize : Scalar := 1
  /-- The width of the shadow map in pixels, zero where it was not rendered. -/
  targetWidth : Scalar := 1024
  near : Scalar := 0.1
  far : Scalar := 100
  /-- The field of view in degrees. -/
  fov : Scalar := 90
  compensation : Scalar := 1
  soft : Vec4 := .zero
  cascades : Option Cascades := none
  deriving DecidableEq, Repr

/-- A texture that a light projects. -/
structure Cookie where
  texture : TextureHandle
  intensity : Scalar := 1
  /-- A linear map of texture coordinates, for spot lights. -/
  transform : Option Vec4 := none
  offset : Vec2 := .zero
  deriving DecidableEq, Repr

/-- A light as it is given to a renderer. -/
structure Light where
  id : LightId := 0
  kind : LightKind
  shape : LightShape := .punctual
  mask : UInt32 := 1
  color : Vec3 := .splat 1
  transform : Mat4 := .identity
  range : Scalar := 10
  /-- The angle in degrees at which a spot light begins to fade. -/
  innerConeAngle : Scalar := 40
  /-- The angle in degrees at which a spot light ends. -/
  outerConeAngle : Scalar := 45
  priority : Int := 0
  shadow : Option Shadow := none
  cookie : Option Cookie := none
  deriving DecidableEq, Repr

namespace Light

/-- Whether a light has a shadow map. -/
def castsShadows (l : Light) : Bool :=
  l.shadow.isSome

/-- Whether a light has an area. -/
def isArea (l : Light) : Bool :=
  l.shape ≠ .punctual

/-- Whether a light has a place in the world, as omni and spot lights do. -/
def isLocal (l : Light) : Bool :=
  l.kind ≠ .directional

/-- Whether a light falls on instances with the given mask. -/
def affects (l : Light) (mask : UInt32) : Bool :=
  l.mask &&& mask ≠ 0

/-- The place of a light. -/
def position (l : Light) : Vec3 :=
  l.transform.w.truncate

/-- The direction in which a light shines. -/
def direction (l : Light) : Vec3 :=
  (-l.transform.y.truncate).normalizeOrZero

/-- The vectors from the middle of an area light to its sides. -/
def halfExtents (l : Light) : Vec3 × Vec3 :=
  (l.transform.transformDirection ⟨-0.5, 0, 0⟩, l.transform.transformDirection ⟨0, 0, 0.5⟩)

/-- The map from the world to the texture of a spot light that has no shadow. Its field of view is
twice the outer angle. -/
def spotCookieMatrix (l : Light) : Mat4 :=
  let view := (l.transform * Mat4.rotationX (-(Scalar.pi / 2))).inverse
  let fov := (l.outerConeAngle * 2).toRadians
  let far := l.range.max .epsilon
  let projection := Mat4.perspective fov 1 (far / 1000) far
  Mat4.shift (.splat 0.5) * Mat4.scaling (.splat 0.5) * projection * view

end Light

end ForwardShading
