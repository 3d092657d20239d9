import ForwardShading.Draw.Submission

/-!
# The forward renderer

A renderer draws layers: it prepares the visible instances, which may build programs, and submits
them. What it keeps between layers is its programs, light slots, object buffer and counters.
-/

namespace ForwardShading

/-- What a renderer is set up with. -/
structure RendererConfig where
  dialect : Dialect := .explicitBinding
  clusteredLighting : Bool := false
  shadows : Bool := true
  cookies : Bool := true
  /-- The greatest number of light slots. -/
  maxLights : Nat := 8
  /-- Whether ambient light and skybox are scaled by luminance. -/
  physicalUnits : Bool := false
  deriving DecidableEq, Repr

/-- The number of texture units that lights leave to materials and views. -/
def reservedTextureUnits : Nat :=
  8

/-- The number of texture units that a light can take: its shadow map and its cookie. -/
def textureUnitsPerLight : Nat :=
  2

/-- The number of light slots on a device, at least one. -/
def RendererConfig.lightSlots (c : RendererConfig) (textureUnits : Nat) : Nat :=
  max (min c.maxLights ((textureUnits - reservedTextureUnits) / textureUnitsPerLight)) 1

/-- The visible part of a scene as a camera draws it. -/
structure Layer where
  camera : Camera
  instances : List Instance
  materials : MaterialTable
  lights : List Light
  /-- Whether the target is upside down. -/
  flipTarget : Bool := false
  pass : ShaderPass := .forward
  /-- The commands that bind the clustered lights, where there are any. -/
  cluster : Option (List Command) := none

/-- A renderer between two layers. -/
structure Renderer where
  config : RendererConfig
  environment : Environment
  dispatcher : Dispatcher
  stats : RenderStats
  /-- The bytes that were last uploaded for an object. -/
  objectBuffer : Std140.Buffer
  cache : VariantCache VariantKey

/-- A drawn layer: the renderer behind it, the calls it was drawn with, and its commands. -/
structure RenderedLayer where
  renderer : Renderer
  prepared : PreparedDraws
  commands : List Command

namespace Renderer

/-- A renderer that has drawn nothing. -/
def ofConfig (config : RendererConfig) (textureUnits : Nat) (cache : VariantCache VariantKey)
    (view : ResourceSet) : Renderer where
  config
  environment := { view, clustered := config.clusteredLighting }
  dispatcher := .ofSlots (config.lightSlots textureUnits) config.shadows config.cookies
  stats := {}
  objectBuffer := #[]
  cache

/-- Begins to count anew. -/
def resetStats (r : Renderer) : Renderer :=
  { r with stats := {} }

/-- Draws a layer: prepares its instances over the programs of the renderer and submits the calls.
-/
def drawLayer (r : Renderer) (l : Layer) : RenderedLayer :=
  let lights := SortedLights.ofLights l.camera.position l.lights
  let (prepared, cache) := r.environment.prepare l.materials r.cache l.instances lights l.pass
  let cluster := if r.config.clusteredLighting then l.cluster.getD [] else []
  let stats := { r.stats with skippedDraws := r.stats.skippedDraws + prepared.skipped }
  let submission : Submission :=
    { camera := l.camera, flipTarget := l.flipTarget, clustered := r.config.clusteredLighting,
      lights, materials := l.materials }
  let start : Progress :=
    { dispatcher := r.dispatcher, stats, objectBuffer := r.objectBuffer, lightsPending := false }
  let (progress, commands) := submission.calls start prepared.calls
  { renderer :=
      { r with
        cache
        dispatcher := progress.dispatcher
        stats := progress.stats
        objectBuffer := progress.objectBuffer }
    prepared
    commands := cluster ++ commands }

/-- Sets the ambient light and the brightness of the skybox. -/
def globalLightCommands (physicalUnits : Bool) (s : SceneSettings) : List Command :=
  let ambient := if physicalUnits then s.ambientColor * s.ambientLuminance else s.ambientColor
  let skybox := if physicalUnits then s.skyboxLuminance else s.skyboxIntensity
  [.uniform "light_globalAmbient" (.vec3 ambient), .uniform "skyboxIntensity" (.float skybox)]

/-- Sets the fog, each kind with the numbers that it depends on. -/
def fogCommands (fog : Fog) : List Command :=
  match fog.kind with
  | .none => []
  | .linear =>
    [.uniform "fog_color" (.vec3 fog.color), .uniform "fog_start" (.float fog.start),
      .uniform "fog_end" (.float fog.stop)]
  | .exp | .exp2 =>
    [.uniform "fog_color" (.vec3 fog.color), .uniform "fog_density" (.float fog.density)]

/-- Sets the size of the target in pixels, at least one, and its reciprocal. -/
def screenSizeCommand (width height : UInt32) : Command :=
  let w := Scalar.ofWord (max width 1)
  let h := Scalar.ofWord (max height 1)
  .uniform "uScreenSize" (.vec4 ⟨w, h, 1 / w, 1 / h⟩)

/-- Sets the constants of a scene. The fog of the camera comes before the scene's. -/
def sceneConstants (r : Renderer) (s : SceneSettings) (camera : Camera) (width height : UInt32) :
    List Command :=
  globalLightCommands r.config.physicalUnits s ++ fogCommands (camera.fog.getD s.fog) ++
    [screenSizeCommand width height]

end Renderer

end ForwardShading
