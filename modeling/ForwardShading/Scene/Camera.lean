import ForwardShading.Single.Vector

/-!
# Cameras and surroundings

What the renderer reads of a camera, of the fog, and of the light that comes from everywhere.
-/

namespace ForwardShading

/-- A render target of the device. -/
structure TargetHandle where
  id : UInt64
  deriving DecidableEq, Repr

/-- The number by which a camera is known. -/
abbrev CameraId := Nat

/-- How fog grows with the distance. -/
inductive FogKind
  | none
  | linear
  | exp
  | exp2
  deriving DecidableEq, Repr

/-- The fog of a scene or a camera. -/
structure Fog where
  kind : FogKind := .none
  color : Vec3 := .zero
  start : Scalar := 1
  stop : Scalar := 1000
  density : Scalar := 0
  deriving DecidableEq, Repr

/-- What all layers of a scene share. -/
structure SceneSettings where
  ambientColor : Vec3 := .zero
  ambientLuminance : Scalar := 0
  skyboxIntensity : Scalar := 1
  skyboxLuminance : Scalar := 0
  fog : Fog := {}
  deriving DecidableEq, Repr

/-- A camera as a renderer sees it. -/
structure Camera where
  id : CameraId := 0
  position : Vec3 := .zero
  near : Scalar := 0.1
  far : Scalar := 1000
  cullFaces : Bool := true
  flipFaces : Bool := false
  /-- Whether later layers read the color that the camera has drawn. -/
  colorMap : Bool := false
  /-- Whether later layers read the depth that the camera has drawn. -/
  depthMap : Bool := false
  postprocessing : Bool := false
  /-- The target, which is the back buffer where there is none. -/
  target : Option TargetHandle := none
  /-- Fog in place of the scene's. -/
  fog : Option Fog := none
  deriving DecidableEq, Repr

/-- Whether later layers read what the camera has drawn. -/
def Camera.capturesScene (c : Camera) : Bool :=
  c.colorMap || c.depthMap

end ForwardShading
