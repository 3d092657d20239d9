import ForwardShading.Scene.Camera

/-!
# Render actions

An action is a camera drawing one layer into a target.
-/

namespace ForwardShading.Frame

/-- The parts of a target that are cleared before drawing. -/
structure ClearFlags where
  color : Bool := false
  depth : Bool := false
  stencil : Bool := false
  deriving DecidableEq, Repr

/-- What an action does besides drawing. -/
structure ActionFlags where
  clear : ClearFlags := {}
  /-- Whether the camera's post-processing runs after the action. -/
  triggerPostprocess : Bool := false
  /-- Whether the color is kept for later actions. -/
  captureColor : Bool := false
  /-- Whether the depth is kept for later actions. -/
  captureDepth : Bool := false
  /-- Whether the camera draws for the first time in the frame. -/
  firstCameraUse : Bool := false
  deriving DecidableEq, Repr

/-- A camera that draws one layer, with what happens around it. -/
structure Action where
  camera : Camera
  /-- The target, which is the back buffer where there is none. -/
  target : Option TargetHandle
  flags : ActionFlags := {}
  /-- The names of passes that the camera itself supplies in place of drawing. -/
  passes : Option (List String) := none
  deriving DecidableEq, Repr

namespace Action

/-- Whether the camera's own passes run in place of drawing. -/
def usesCameraPasses (a : Action) : Bool :=
  a.passes.isSome

/-- Whether an action keeps what its camera has drawn. -/
def isCapture (a : Action) : Bool :=
  !a.usesCameraPasses && (a.flags.captureColor || a.flags.captureDepth) && a.camera.capturesScene

end Action

end ForwardShading.Frame
