import ForwardShading.Proofs.Draw.SharedCache
import ForwardShading.Renderer

/-!
# Drawn layers

A layer is drawn by preparing its instances and submitting the calls.  What a renderer keeps between
layers depends on all that came before, and on other renderers that use the same programs
(`Renderer.Reachable`); `Renderer.Coherent` is what all of it has in common.
-/

namespace ForwardShading

namespace Renderer

variable (r : Renderer) (l : Layer)

/-- What the calls of a layer are submitted with. -/
def submission : Submission where
  camera := l.camera
  flipTarget := l.flipTarget
  clustered := r.config.clusteredLighting
  lights := .ofLights l.camera.position l.lights
  materials := l.materials

/-- The submission of a layer before its first call. -/
def start : Progress where
  dispatcher := r.dispatcher
  stats := { r.stats with skippedDraws := r.stats.skippedDraws + (r.drawLayer l).prepared.skipped }
  objectBuffer := r.objectBuffer
  lightsPending := false

/-- The commands in front of the calls of a layer. -/
def clusterCommands : List Command :=
  if r.config.clusteredLighting then l.cluster.getD [] else []

/-- The commands of the calls of a layer. -/
def submitted : List Command :=
  ((r.submission l).calls (r.start l) (r.drawLayer l).prepared.calls).2

theorem commands_drawLayer : (r.drawLayer l).commands = r.clusterCommands l ++ r.submitted l :=
  rfl

theorem linked_drawLayer : Linked none (r.drawLayer l).prepared.calls :=
  r.environment.linked_prepare l.materials _ l.pass r.cache l.instances

theorem object_mem_instances {c : DrawCall} (hc : c ∈ (r.drawLayer l).prepared.calls) :
    c.object ∈ l.instances :=
  List.mem_of_getElem? (r.environment.getElem?_index_of_mem_prepare l.materials _ l.pass r.cache
    l.instances hc)

/-- The renderers that come from drawing layers.  In between, others may prepare draws over the same
programs, with lights that are split by kind. -/
inductive Reachable : Renderer → Prop
  | start (config : RendererConfig) (textureUnits : Nat) (dialect : Dialect) (view : ResourceSet) :
    Reachable (.ofConfig config textureUnits (.empty dialect) view)
  | draw {r : Renderer} (l : Layer) : Reachable r → Reachable (r.drawLayer l).renderer
  | share {r : Renderer} (p : Preparation) (split : p.lights.ByKind) :
    Reachable r → Reachable { r with cache := (p.run r.cache).2 }
  | resetStats {r : Renderer} : Reachable r → Reachable r.resetStats

/-- What renderers have in common: they prepare draws for the lighting with which they submit them,
and every variant that they keep was built from a description of its key. -/
structure Coherent (r : Renderer) : Prop where
  clustered : r.environment.clustered = r.config.clusteredLighting
  built : r.cache.BuiltFrom (Environment.Describes SortedLights.ByKind)

/-- The preparation of a layer. -/
def preparation : Preparation where
  environment := r.environment
  materials := l.materials
  instances := l.instances
  lights := .ofLights l.camera.position l.lights
  pass := l.pass

theorem byKind_preparation : (r.preparation l).lights.ByKind :=
  SortedLights.byKind_ofLights _ _

/-- Drawing is one more preparation over the programs of the renderer. -/
theorem cache_drawLayer : (r.drawLayer l).renderer.cache = ((r.preparation l).run r.cache).2 :=
  rfl

variable {r l}

theorem Reachable.coherent (h : r.Reachable) : r.Coherent := by
  induction h with
  | start config textureUnits dialect view => exact ⟨rfl, VariantCache.builtFrom_empty dialect⟩
  | draw l _ ih =>
    refine ⟨ih.clustered, ?_⟩
    rw [cache_drawLayer]
    exact (Preparation.builtFrom_run SortedLights.allToldApart_byKind (byKind_preparation _ l)
      ih.built).1
  | share p split _ ih =>
    exact ⟨ih.clustered,
      (Preparation.builtFrom_run SortedLights.allToldApart_byKind split ih.built).1⟩
  | resetStats _ ih => exact ⟨ih.clustered, ih.built⟩

theorem Coherent.program_eq (h : r.Coherent) {c : DrawCall}
    (hc : c ∈ (r.drawLayer l).prepared.calls) :
    c.variant.program =
      Program.build r.cache.dialect
        (r.environment.describe l.materials (.ofLights l.camera.position l.lights) l.pass
          c.object).1
        (r.environment.describe l.materials (.ofLights l.camera.position l.lights) l.pass
          c.object).2 := by
  rw [Environment.variant_of_mem_prepare _ _ _ _ SortedLights.allToldApart_byKind
    (SortedLights.byKind_ofLights _ _) h.built _ hc]
  rfl

/-- A renderer in explicit bindings that has drawn nothing. -/
def initial : Renderer :=
  .ofConfig {} 16 (.empty .explicitBinding) (.empty .view)

theorem reachable_initial : initial.Reachable :=
  .start {} 16 .explicitBinding (.empty .view)

end Renderer

namespace Layer

/-- White, as a parameter. -/
def white : UniformValue :=
  .vec4 ⟨⟨0x3f800000⟩, ⟨0x3f800000⟩, ⟨0x3f800000⟩, ⟨0x3f800000⟩⟩

/-- Red, as a parameter. -/
def red : UniformValue :=
  .vec4 ⟨⟨0x3f800000⟩, ⟨0⟩, ⟨0⟩, ⟨0x3f800000⟩⟩

/-- A material with a tint, which is white where no instance says otherwise. -/
def tintedMaterial : Material where
  definition := ⟨"tinted", "uniform vec4 tint;\n", "", .empty⟩
  parameters := .ofList [("tint", white)]

/-- Two instances of a white material, of which the second one is red. -/
def tinted : Layer where
  camera := {}
  instances :=
    [{ material := ⟨0⟩, mesh := { vertexBuffer := ⟨1⟩ } },
      { material := ⟨0⟩, mesh := { vertexBuffer := ⟨1⟩ }, mask := 2,
        parameters := .ofList [("tint", red)] }]
  materials _ := tintedMaterial
  lights := []

/-- A directional light and an omni light with different masks, and an instance with the mask of the
omni light. -/
def masked : Layer where
  camera := {}
  instances := [{ material := ⟨0⟩, mesh := { vertexBuffer := ⟨1⟩ } }]
  materials _ := tintedMaterial
  lights := [{ kind := .directional, mask := 2 }, { kind := .omni }]

end Layer

end ForwardShading
