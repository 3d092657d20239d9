import ForwardShading.Light.Basic
import ForwardShading.Scene.Camera

/-!
# Light slots

A slot holds what a program reads of one light. Which groups of data there are depends on the light;
`Slot.packed` is the record with zeros for the groups that are missing.
-/

namespace ForwardShading

/-- What a program reads of a shadow map. -/
structure ShadowSlot where
  map : TextureHandle
  /-- Resolution, normal bias, bias, and for local lights the reciprocal of the range. -/
  params : Vec4
  intensity : Scalar
  /-- Zero, far and near distance, and one for directional lights. -/
  camera : Vec4
  deriving DecidableEq, Repr

/-- What a program reads of the cascades of a shadow. -/
structure CascadeSlot where
  palette : Vector Mat4 4
  distances : Vec4
  count : Scalar
  blend : Scalar
  soft : Vec4
  deriving DecidableEq, Repr

/-- What a program reads of a cookie. -/
structure CookieSlot where
  texture : TextureHandle
  intensity : Scalar
  deriving DecidableEq, Repr

/-- What a program reads of a light. A group that the light does not have is missing. -/
structure Slot where
  color : Vec3
  direction : Option Vec3 := none
  position : Option Vec3 := none
  /-- The vectors from the middle to the sides. -/
  area : Option (Vec3 × Vec3) := none
  radius : Option Scalar := none
  /-- The cosines of the inner and the outer angle. -/
  cone : Option (Scalar × Scalar) := none
  shadow : Option ShadowSlot := none
  searchArea : Option Scalar := none
  shadowMatrix : Option Mat4 := none
  cascades : Option CascadeSlot := none
  cookie : Option CookieSlot := none
  /-- The linear map and the offset of texture coordinates. -/
  cookieTransform : Option (Vec4 × Vec2) := none
  deriving DecidableEq, Repr

namespace Slot

/-- Writes the groups of a light over a slot. Groups that the light does not have stay. -/
def writeGroups (s light : Slot) : Slot :=
  { s with
    direction := light.direction.or s.direction
    position := light.position.or s.position
    area := light.area.or s.area
    radius := light.radius.or s.radius
    cone := light.cone.or s.cone
    shadow := light.shadow.or s.shadow
    searchArea := light.searchArea.or s.searchArea
    shadowMatrix := light.shadowMatrix.or s.shadowMatrix
    cascades := light.cascades.or s.cascades
    cookie := light.cookie.or s.cookie
    cookieTransform := light.cookieTransform.or s.cookieTransform }

/-- A directional light. One with an area is a light at the camera's far distance. -/
def directional (shadows : Bool) (camera : Camera) (l : Light) : Slot :=
  let direction := l.direction
  let (halfWidth, halfHeight) := l.halfExtents
  let shadow := l.shadow.filter fun _ => shadows
  let far := camera.far
  { color := l.color
    direction := some direction
    position := if l.isArea then some (camera.position - direction * far) else none
    area := if l.isArea then some (halfWidth * far, halfHeight * far) else none
    shadow := shadow.map fun s =>
      ⟨s.map, ⟨s.resolution, s.normalBias, s.bias, 0⟩, s.intensity, ⟨0, s.far, s.near, 1⟩⟩
    searchArea := shadow.bind fun s =>
      if Scalar.lt 0 s.targetWidth then
        some (s.penumbraSize / s.targetWidth * s.compensation)
      else
        none
    shadowMatrix := shadow.map (·.transform)
    cascades := shadow.map fun s =>
      let c := s.cascades.getD { palette := Vector.replicate 4 s.transform }
      ⟨c.palette, c.distances, Scalar.ofWord c.count, 1 - c.blend, s.soft⟩ }

/-- What omni and spot lights have in common. -/
def ofLocal (l : Light) (shadow : Option Shadow) : Slot :=
  { color := l.color
    position := some l.position
    area := if l.isArea then some l.halfExtents else none
    radius := some l.range
    shadow := shadow.map fun s =>
      let inverseRange := if Scalar.lt 0 l.range then 1 / l.range else 0
      ⟨s.map, ⟨s.resolution, s.normalBias, s.bias, inverseRange⟩, s.intensity,
        ⟨0, s.far, s.near, 0⟩⟩
    searchArea := shadow.bind fun s =>
      if Scalar.lt 0 s.targetWidth then some (s.penumbraSize / s.targetWidth) else none }

/-- An omni light. Its cookie is looked up along the light's own axes. -/
def omni (shadows cookies : Bool) (l : Light) : Slot :=
  let cookie := l.cookie.filter fun _ => cookies
  { ofLocal l (l.shadow.filter fun _ => shadows) with
    shadowMatrix := cookie.map fun _ => l.transform
    cookie := cookie.map fun c => ⟨c.texture, c.intensity⟩ }

/-- A spot light. Its cookie is looked up by the shadow's matrix, if it has a shadow. -/
def spot (shadows cookies : Bool) (l : Light) : Slot :=
  let shadow := l.shadow.filter fun _ => shadows
  let cookie := l.cookie.filter fun _ => cookies
  let common := ofLocal l shadow
  { common with
    direction := some l.direction
    cone := some (l.innerConeAngle.toRadians.cos, l.outerConeAngle.toRadians.cos)
    searchArea := shadow.bind fun s =>
      common.searchArea.map (· * (1 / (s.fov.toRadians / 2).tan))
    shadowMatrix := (shadow.map (·.transform)).or (cookie.map fun _ => l.spotCookieMatrix)
    cookie := cookie.map fun c => ⟨c.texture, c.intensity⟩
    cookieTransform := cookie.bind fun c => c.transform.map (·, c.offset) }

/-- The slot of a light among the local ones. Of a directional light there is only the color. -/
def ofLight (shadows cookies : Bool) (l : Light) : Slot :=
  match l.kind with
  | .omni => omni shadows cookies l
  | .spot => spot shadows cookies l
  | .directional => { color := l.color }

end Slot

/-- The groups of data that a slot can have. -/
inductive SlotField
  | direction
  | position
  | area
  | radius
  | cone
  | shadow
  | searchArea
  | shadowMatrix
  | cascades
  | cookie
  | cookieTransform
  deriving DecidableEq, Repr

namespace SlotField

/-- Every group, in the order of its bit. -/
def all : List SlotField :=
  [direction, position, area, radius, cone, shadow, searchArea, shadowMatrix, cascades, cookie,
    cookieTransform]

/-- Whether a slot has a group. -/
def isIn (s : Slot) : SlotField → Bool
  | direction => s.direction.isSome
  | position => s.position.isSome
  | area => s.area.isSome
  | radius => s.radius.isSome
  | cone => s.cone.isSome
  | shadow => s.shadow.isSome
  | searchArea => s.searchArea.isSome
  | shadowMatrix => s.shadowMatrix.isSome
  | cascades => s.cascades.isSome
  | cookie => s.cookie.isSome
  | cookieTransform => s.cookieTransform.isSome

end SlotField

/-- The record of a slot, in the order of its bytes. -/
structure PackedSlot where
  color : Vec4
  direction : Vec4
  position : Vec4
  halfWidth : Vec4
  halfHeight : Vec4
  shadowParams : Vec4
  cameraParams : Vec4
  softShadowParams : Vec4
  cascadeDistances : Vec4
  attenuation : Vec4
  shadow : Vec4
  cookie : Vec4
  cookieTransform : Vec4
  shadowMatrix : Mat4
  shadowPalette : Vector Mat4 4
  deriving DecidableEq, Repr

namespace PackedSlot

/-- The record of a slot that was never written. -/
def zero : PackedSlot :=
  ⟨.zero, .zero, .zero, .zero, .zero, .zero, .zero, .zero, .zero, .zero, .zero, .zero, .zero, .zero,
    Vector.replicate 4 .zero⟩

/-- The numbers of a record, in the order of its bytes. -/
def toList (p : PackedSlot) : List Scalar :=
  [p.color, p.direction, p.position, p.halfWidth, p.halfHeight, p.shadowParams, p.cameraParams,
    p.softShadowParams, p.cascadeDistances, p.attenuation, p.shadow, p.cookie,
    p.cookieTransform].flatMap Vec4.toList ++
  p.shadowMatrix.toList ++ p.shadowPalette.toList.flatMap Mat4.toList

/-- The size of a record in bytes. -/
def byteSize : Nat :=
  4 * zero.toList.length

end PackedSlot

/-- The record of a slot, with zeros for the groups that it does not have. -/
def Slot.packed (s : Slot) : PackedSlot where
  color := s.color.extend 1
  direction := (s.direction.map (·.extend 0)).getD .zero
  position := (s.position.map (·.extend 1)).getD .zero
  halfWidth := (s.area.map (·.1.extend 0)).getD .zero
  halfHeight := (s.area.map (·.2.extend 0)).getD .zero
  shadowParams := (s.shadow.map (·.params)).getD .zero
  cameraParams := (s.shadow.map (·.camera)).getD .zero
  softShadowParams := (s.cascades.map (·.soft)).getD .zero
  cascadeDistances := (s.cascades.map (·.distances)).getD .zero
  attenuation :=
    ⟨s.radius.getD 0, (s.cone.map (·.1)).getD 0, (s.cone.map (·.2)).getD 0, 0⟩
  shadow :=
    ⟨(s.shadow.map (·.intensity)).getD 0, s.searchArea.getD 0,
      (s.cascades.map (·.count)).getD 0, (s.cascades.map (·.blend)).getD 0⟩
  cookie :=
    ⟨(s.cookie.map (·.intensity)).getD 0, (s.cookieTransform.map (·.2.x)).getD 0,
      (s.cookieTransform.map (·.2.y)).getD 0, 0⟩
  cookieTransform := (s.cookieTransform.map (·.1)).getD .zero
  shadowMatrix := s.shadowMatrix.getD .zero
  shadowPalette := (s.cascades.map (·.palette)).getD (Vector.replicate 4 .zero)

end ForwardShading
