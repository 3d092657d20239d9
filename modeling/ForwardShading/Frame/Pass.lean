import ForwardShading.Frame.Action
import ForwardShading.Light.Basic

/-!
# Frame passes

The passes of a frame, in the order in which they run.
-/

namespace ForwardShading.Frame

/-- A step of a frame. -/
inductive Pass
  | clusteredLights
  | localShadows (lights : List LightId)
  | directionalShadows (camera : CameraId) (lights : List LightId)
  /-- Draws actions, which are given by their places, into one target. -/
  | forward (target : Option TargetHandle) (actions : List Nat) (clear : ClearFlags)
  | colorGrab (camera : CameraId) (target : Option TargetHandle)
  | depthGrab (camera : CameraId) (target : Option TargetHandle)
  | postProcess (camera : CameraId)
  | external (camera : CameraId) (name : String)
  deriving DecidableEq, Repr

/-- Whether a pass draws actions. -/
def Pass.isForward : Pass → Bool
  | forward .. => true
  | _ => false

end ForwardShading.Frame
