import ForwardShading.Frame.Pass
import ForwardShading.OrderedMap

/-!
# Frame schedules

The actions of a frame fall into blocks of neighbours that join: they draw into one target, and
nothing has to happen in between. A block becomes one forward pass with the passes around it.
-/

namespace ForwardShading.Frame

/-- What a frame is scheduled from. -/
structure Inputs where
  actions : List Action
  clustered : Bool := false
  /-- The local lights whose shadows are rendered. -/
  localShadows : List LightId := []
  /-- The directional lights whose shadows are rendered before a camera first draws. -/
  directionalShadows : OrderedMap CameraId (List LightId) := .empty

namespace Inputs

/-- The directional lights whose shadows a camera needs. -/
def shadowLights (inputs : Inputs) (camera : CameraId) : List LightId :=
  (inputs.directionalShadows.get? camera).getD []

/-- Whether shadows are rendered before an action. -/
def needsShadows (inputs : Inputs) (a : Action) : Bool :=
  a.flags.firstCameraUse && !(inputs.shadowLights a.camera.id).isEmpty

/-- Whether a block with the given target ends between an action and the next. -/
def breaksAfter (inputs : Inputs) (a : Action) (target : Option TargetHandle) :
    Option Action → Bool
  | none => true
  | some next =>
    next.usesCameraPasses || next.target ≠ target || inputs.needsShadows next ||
      next.isCapture || a.isCapture

/-- Whether two neighbours lie in one block. -/
def joins (inputs : Inputs) (a next : Action) : Bool :=
  !a.usesCameraPasses && !inputs.breaksAfter a a.target (some next)

/-- The blocks of the actions, which are given with their places. -/
def blocks (inputs : Inputs) : List (List (Action × Nat)) :=
  inputs.actions.zipIdx.splitBy fun a b => inputs.joins a.1 b.1

/-- The passes that keep what an action has drawn. -/
def grabPasses (a : Action) : List Pass :=
  if a.isCapture then
    (if a.flags.captureColor && a.camera.colorMap then [.colorGrab a.camera.id a.target] else []) ++
    (if a.flags.captureDepth && a.camera.depthMap then [.depthGrab a.camera.id a.target] else [])
  else
    []

/-- The passes that draw a block with the given first action. A capture draws nothing. -/
def drawPasses (inputs : Inputs) (first : Action) (places : List Nat) : List Pass :=
  if first.isCapture then
    []
  else
    (if inputs.needsShadows first then
      [.directionalShadows first.camera.id (inputs.shadowLights first.camera.id)]
    else
      []) ++
    [.forward first.target places first.flags.clear]

/-- The post-processing that an action triggers, if its camera has any. -/
def postPasses (a : Action) : List Pass :=
  if a.flags.triggerPostprocess && a.camera.postprocessing then [.postProcess a.camera.id] else []

/-- The passes of a block: those that the camera supplies, or drawing with what goes before and
after. -/
def blockPasses (inputs : Inputs) (block : List (Action × Nat)) : List Pass :=
  match block.head?, block.getLast? with
  | some (first, _), some (last, _) =>
    match first.passes with
    | some names => names.map (.external first.camera.id)
    | none =>
      inputs.drawPasses first (block.map (·.2)) ++ grabPasses last ++ postPasses last
  | _, _ => []

/-- The pass in front of all actions. -/
def prologue (inputs : Inputs) : List Pass :=
  if inputs.clustered then
    [.clusteredLights]
  else if inputs.localShadows.isEmpty then
    []
  else
    [.localShadows inputs.localShadows]

/-- The passes of a frame: those of its lights, then those of its blocks in order. -/
def passes (inputs : Inputs) : List Pass :=
  inputs.prologue ++ inputs.blocks.flatMap inputs.blockPasses

end Inputs

end ForwardShading.Frame
