import ForwardShading.Draw.Prepared
import ForwardShading.Light.Dispatch

/-!
# Submission

The device commands of prepared draws. Material state is set where a call has a new material, lights
are dispatched where the mask has changed, and a draw's overrides of material parameters are taken
back where the next call shares the material. Calls whose program failed issue nothing.
-/

namespace ForwardShading

/-- The counters of a renderer. -/
structure RenderStats where
  draws : Nat := 0
  /-- The draws with instancing data. -/
  instancedDraws : Nat := 0
  materialSwitches : Nat := 0
  /-- Calls without a program, and instances without a call. -/
  skippedDraws : Nat := 0
  deriving DecidableEq, Repr

/-- What the draws of a layer are submitted with. -/
structure Submission where
  camera : Camera
  flipTarget : Bool
  clustered : Bool
  lights : SortedLights
  materials : MaterialTable

/-- What goes from one call to the next. -/
structure Progress where
  dispatcher : Dispatcher
  stats : RenderStats
  /-- The bytes that were last uploaded for an object. -/
  objectBuffer : Std140.Buffer
  /-- Whether calls without a program have left a dispatch of lights to do. -/
  lightsPending : Bool

/-- The faces that are not drawn. Each of a flipping camera, target and transform turns the winding
around. -/
def cullMode (camera : Camera) (flipTarget : Bool) (mode : CullMode) (i : Instance) : CullMode :=
  if !camera.cullFaces || mode = .none then
    .none
  else if (camera.flipFaces ^^ flipTarget) ^^ i.flipsFaces then
    mode.flipped
  else
    mode

namespace Instance

/-- Fills the object's uniform buffer: its matrices, then its parameters. The buffer is that of the
object before. -/
def fillBuffer (i : Instance) (l : Std140.Layout) (b : Std140.Buffer) : Std140.Buffer :=
  let values := [("matrix_model", UniformValue.mat4 i.transform),
    ("matrix_normal", UniformValue.mat3 i.transform.normalMatrix)] ++ i.parameters.entries
  values.foldl (fun b (name, value) => ((value.words?).bind (l.write? b name)).getD b)
    (b.clear.resize l.byteSize.toNat)

/-- Sets the resources of an object, with the bytes of its uniform buffer. -/
def objectCommands (i : Instance) (p : Program) (b : Std140.Buffer) : List Command :=
  (if p.dialect.usesUniformBuffers then
    [.uniformBuffer .objectUniforms p.layout.uniforms b]
  else
    []) ++
  [.uniform "matrix_model" (.mat4 i.transform),
    .uniform "matrix_normal" (.mat3 i.transform.normalMatrix)] ++
  (if p.layout.textures.textures = [] then [] else [.bindGroup .object p.layout.textures])

/-- Binds the vertices of an instance, and its instancing data where there are any. -/
def vertexCommands (i : Instance) : List Command :=
  .vertexBuffer 0 i.mesh.vertexBuffer ::
    (i.instancing.map fun data => Command.vertexBuffer 1 data.vertexBuffer).toList

/-- Draws the mesh of an instance as often as its instancing says. -/
def drawCommand (i : Instance) : Command :=
  .draw i.mesh.primitive i.mesh.indexBuffer i.count

end Instance

namespace Material

/-- Sets the program, the parameters and the textures of a material. -/
def bindCommands (m : Material) (p : Program) : List Command :=
  .shader p :: m.parameters.commands ++ (m.resources.textures.map (.bindGroup .material)).toList

/-- Sets the state of a material that comes after the lights. -/
def stateCommands (m : Material) : List Command :=
  [.uniform "alpha_ref" (.float m.alphaTest), .blend m.blend, .depth m.depth]

end Material

namespace Submission

/-- The commands of a call between those for its material and lights, and the next call. -/
def drawCommands (s : Submission) (m : Material) (i : Instance) (p : Program)
    (b : Std140.Buffer) : List Command :=
  [.cull (cullMode s.camera s.flipTarget m.cull i), .stencil (i.stencil.or m.stencil)] ++
  i.parameters.commands ++ i.vertexCommands ++ i.objectCommands p b ++ [i.drawCommand]

/-- The dispatch of lights that a call needs, if it needs one. -/
def dispatch? (s : Submission) (progress : Progress) (c : DrawCall) : Option Dispatched :=
  if c.maskChanged || progress.lightsPending then
    some (progress.dispatcher.dispatchAll s.lights c.object.mask s.camera s.clustered)
  else
    none

/-- Submits one call. `shared` says whether the next call shares its material. -/
def call (s : Submission) (progress : Progress) (c : DrawCall) (shared : Bool) :
    Progress × List Command :=
  let i := c.object
  let stats := progress.stats
  match c.variant.program with
  | .error _ =>
    ({ progress with
        stats := { stats with skippedDraws := stats.skippedDraws + 1 }
        lightsPending := progress.lightsPending || c.maskChanged }, [])
  | .ok p =>
    let m := s.materials i.material
    let dispatched := s.dispatch? progress c
    let buffer :=
      if p.dialect.usesUniformBuffers then
        i.fillBuffer p.layout.uniforms progress.objectBuffer
      else
        progress.objectBuffer
    let commands :=
      (if c.newMaterial then m.bindCommands p else []) ++
      (dispatched.map (·.commands)).getD [] ++
      (if c.newMaterial then m.stateCommands else []) ++ s.drawCommands m i p buffer ++
      (if shared then m.parameters.commandsFor i.parameters.keys else [])
    ({ dispatcher := (dispatched.map (·.dispatcher)).getD progress.dispatcher
       objectBuffer := buffer
       lightsPending := false
       stats := { stats with
        draws := stats.draws + 1
        instancedDraws := stats.instancedDraws + if i.instancing.isSome then 1 else 0
        materialSwitches := stats.materialSwitches + if c.newMaterial then 1 else 0 } }, commands)

/-- Submits calls in order. Each is told whether the next one shares its material. -/
def calls (s : Submission) (progress : Progress) : List DrawCall → Progress × List Command
  | [] => (progress, [])
  | c :: cs =>
    let (progress, commands) := s.call progress c (cs.head?.any (!·.newMaterial))
    let (progress, rest) := s.calls progress cs
    (progress, commands ++ rest)

end Submission

end ForwardShading
