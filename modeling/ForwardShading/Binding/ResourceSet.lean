import ForwardShading.Binding.Tier
import ForwardShading.Binding.BindGroup
import ForwardShading.Std140.Layout

/-!
# Resource sets

The uniforms and textures that a tier already binds. Sets are consulted in order, and a name belongs
to the first set that holds it.
-/

namespace ForwardShading

/-- What a tier binds: a uniform buffer and textures, either of which can be missing. -/
structure ResourceSet where
  tier : Tier
  uniforms : Option Std140.Layout
  textures : Option BindGroup
  deriving DecidableEq, Repr

/-- Where a resource is bound. -/
structure Binding where
  tier : Tier
  slot : Nat
  deriving DecidableEq, Repr

namespace ResourceSet

/-- The set of a uniform buffer, which takes the first slot, and textures behind it. -/
def of (tier : Tier) (uniforms : Option Std140.Layout) (textures : List Texture) : ResourceSet where
  tier
  uniforms
  textures :=
    match textures with
    | [] => none
    | ts => some (.ofTextures (if uniforms.isSome then 1 else 0) ts)

/-- The set of a tier that binds nothing. -/
def empty (tier : Tier) : ResourceSet :=
  ⟨tier, none, none⟩

/-- Where the buffer is bound that has a uniform. -/
def uniformBinding? (s : ResourceSet) (name : String) : Option Binding :=
  if s.uniforms.any (·.contains name) then some ⟨s.tier, 0⟩ else none

/-- Where a texture is bound. -/
def textureBinding? (s : ResourceSet) (name : String) : Option Binding := do
  let t ← (← s.textures).texture? name
  return ⟨s.tier, t.slot⟩

end ResourceSet

/-- Resource sets in the order in which they are consulted. -/
abbrev ResourceTiers := List ResourceSet

namespace ResourceTiers

/-- The first set of a tier. -/
def get? (ts : ResourceTiers) (tier : Tier) : Option ResourceSet :=
  ts.find? (·.tier == tier)

/-- Where a uniform is bound by the first set that has it. -/
def resolveUniform (ts : ResourceTiers) (name : String) : Option Binding :=
  ts.findSome? (·.uniformBinding? name)

/-- Where a texture is bound by the first set that has it. -/
def resolveTexture (ts : ResourceTiers) (name : String) : Option Binding :=
  ts.findSome? (·.textureBinding? name)

end ResourceTiers

end ForwardShading
