import ForwardShading.Light.Order
import ForwardShading.Program.VariantCache
import ForwardShading.Scene.Instance

/-!
# Draw environments

An environment is what all draws of a view share. Together with a pass, lights, a material and an
instance it describes the program to draw with, and the key under which that program is kept.
-/

namespace ForwardShading

/-- What all draws of a view share. -/
structure Environment where
  view : ResourceSet
  elements : OrderedMap Semantic VertexElement := .empty
  /-- Whether local lights are read from a clustered structure. -/
  clustered : Bool := false
  deriving DecidableEq

/-- All that a program depends on. -/
structure VariantKey where
  pass : ShaderPass
  lights : List LightFingerprint
  material : MaterialFingerprint
  objectFlags : UInt64
  environment : Environment
  deriving DecidableEq

/-- The define that tells a program its pass. -/
def ShaderPass.define : ShaderPass → Glsl.Define
  | forward => ⟨"FORWARD_PASS", ""⟩
  | depth => ⟨"DEPTH_PASS", ""⟩
  | shadow => ⟨"SHADOW_PASS", ""⟩
  | custom id => ⟨"CUSTOM_PASS_" ++ toString id.toNat, ""⟩

namespace Environment

/-- The key of the program that draws an instance. -/
def key (e : Environment) (materials : MaterialTable) (lights : SortedLights) (pass : ShaderPass)
    (i : Instance) : VariantKey where
  pass
  lights := lights.fingerprint e.clustered
  material := (materials i.material).fingerprint
  objectFlags := i.shaderFlags
  environment := e

/-- The defines that specialise a program: pass, number of lights, and the flags of the object. -/
def defines (e : Environment) (lights : SortedLights) (pass : ShaderPass) (flags : UInt64) :
    List Glsl.Define :=
  [pass.define, ⟨"DIRECTIONAL_LIGHT_COUNT", toString lights.directional.length⟩] ++
  (if e.clustered then
    [⟨"CLUSTERED_LIGHTS", ""⟩]
  else
    [⟨"OMNI_LIGHT_COUNT", toString lights.omni.length⟩,
      ⟨"SPOT_LIGHT_COUNT", toString lights.spot.length⟩]) ++
  (if flags = 0 then [] else [⟨"OBJECT_FLAGS", toString flags.toNat⟩])

/-- The definition of the program that draws an instance, and what it is built with. -/
def describe (e : Environment) (materials : MaterialTable) (lights : SortedLights)
    (pass : ShaderPass) (i : Instance) : Definition × Surroundings :=
  let m := materials i.material
  (m.variantDefinition (e.defines lights pass i.shaderFlags), ⟨[e.view, m.resources], e.elements⟩)

end Environment

end ForwardShading
