import ForwardShading.Device.Command
import ForwardShading.Light.Slot

/-!
# Light uniforms

The named uniforms through which programs read the light slots. The name of a uniform begins with
the number of its slot.
-/

namespace ForwardShading

/-- The uniforms of a light slot. -/
inductive LightUniform
  | color
  | direction
  | position
  | halfWidth
  | halfHeight
  | radius
  | innerConeAngle
  | outerConeAngle
  | shadowMap
  | shadowMatrix
  | shadowParams
  | shadowIntensity
  | shadowSearchArea
  | cameraParams
  | softShadowParams
  | shadowMatrixPalette
  | shadowCascadeDistances
  | shadowCascadeCount
  | shadowCascadeBlend
  | cookie
  | cookieIntensity
  | cookieMatrix
  | cookieOffset
  deriving DecidableEq, Repr

namespace LightUniform

/-- The end of the name of a uniform. -/
def suffix : LightUniform → String
  | color => "color"
  | direction => "direction"
  | position => "position"
  | halfWidth => "halfWidth"
  | halfHeight => "halfHeight"
  | radius => "radius"
  | innerConeAngle => "innerConeAngle"
  | outerConeAngle => "outerConeAngle"
  | shadowMap => "shadowMap"
  | shadowMatrix => "shadowMatrix"
  | shadowParams => "shadowParams"
  | shadowIntensity => "shadowIntensity"
  | shadowSearchArea => "shadowSearchArea"
  | cameraParams => "cameraParams"
  | softShadowParams => "softShadowParams"
  | shadowMatrixPalette => "shadowMatrixPalette[0]"
  | shadowCascadeDistances => "shadowCascadeDistances"
  | shadowCascadeCount => "shadowCascadeCount"
  | shadowCascadeBlend => "shadowCascadeBlend"
  | cookie => "cookie"
  | cookieIntensity => "cookieIntensity"
  | cookieMatrix => "cookieMatrix"
  | cookieOffset => "cookieOffset"

/-- The name of a uniform of a slot: the number of the slot, then what it is. -/
def name (slot : Nat) (u : LightUniform) : String :=
  "light" ++ toString slot ++ "_" ++ u.suffix

end LightUniform

/-- The values of a group, where the slot has the group. -/
def uniformsOf {α : Type} (group : Option α) (f : α → List (LightUniform × UniformValue)) :
    List (LightUniform × UniformValue) :=
  (group.map f).getD []

/-- The uniforms that a slot sets, group by group. -/
def Slot.uniforms (s : Slot) : List (LightUniform × UniformValue) :=
  [(.color, .vec3 s.color)] ++
  uniformsOf s.direction (fun v => [(.direction, .vec3 v)]) ++
  uniformsOf s.position (fun v => [(.position, .vec3 v)]) ++
  uniformsOf s.area (fun a => [(.halfWidth, .vec3 a.1), (.halfHeight, .vec3 a.2)]) ++
  uniformsOf s.radius (fun a => [(.radius, .float a)]) ++
  uniformsOf s.cone (fun a => [(.innerConeAngle, .float a.1), (.outerConeAngle, .float a.2)]) ++
  uniformsOf s.shadow (fun a =>
    [(.shadowMap, .texture a.map), (.shadowParams, .vec4 a.params),
      (.shadowIntensity, .float a.intensity), (.cameraParams, .vec4 a.camera)]) ++
  uniformsOf s.searchArea (fun a => [(.shadowSearchArea, .float a)]) ++
  uniformsOf s.shadowMatrix (fun m => [(.shadowMatrix, .mat4 m)]) ++
  uniformsOf s.cascades (fun a =>
    [(.shadowMatrixPalette, .mat4s a.palette.toList),
      (.shadowCascadeDistances, .floats a.distances.toList),
      (.shadowCascadeCount, .float a.count), (.shadowCascadeBlend, .float a.blend),
      (.softShadowParams, .vec4 a.soft)]) ++
  uniformsOf s.cookie (fun a =>
    [(.cookie, .texture a.texture), (.cookieIntensity, .float a.intensity)]) ++
  uniformsOf s.cookieTransform (fun a => [(.cookieMatrix, .vec4 a.1), (.cookieOffset, .vec2 a.2)])

/-- Sets the uniforms of a slot under the given names. -/
def Slot.commands (s : Slot) (names : LightUniform → String) : List Command :=
  s.uniforms.map fun (u, value) => .uniform (names u) value

/-- The names of the uniforms of the first slots. -/
structure NameTable where
  rows : List (LightUniform → String)
  numbered : ∀ number (h : number < rows.length), rows[number] = LightUniform.name number

namespace NameTable

/-- The table without rows. -/
def empty : NameTable :=
  ⟨[], fun _ h => absurd h (Nat.not_lt_zero _)⟩

/-- Adds the names of one more slot. -/
def grow (t : NameTable) : NameTable where
  rows := t.rows ++ [LightUniform.name t.rows.length]
  numbered number h := by
    rw [List.getElem_append]
    split
    · exact t.numbered number _
    · have hlast : number = t.rows.length := by
        rw [List.length_append, List.length_singleton] at h
        omega
      simp [hlast]

/-- Adds names until those of a slot are there. -/
def growTo (t : NameTable) (number : Nat) : NameTable :=
  (number + 1 - t.rows.length).repeat grow t

/-- The names for a slot, if they have been made. -/
def row? (t : NameTable) (number : Nat) : Option (LightUniform → String) :=
  t.rows[number]?

end NameTable

end ForwardShading
