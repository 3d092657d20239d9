import ForwardShading.Binding.ResourceSet

/-!
# The names of resource sets

A set names its uniforms and its textures, and a name resolves in a list of tiers exactly if one of
their sets has it (`ResourceTiers.isSome_resolveUniform`, `ResourceTiers.isSome_resolveTexture`).
-/

namespace ForwardShading

namespace ResourceSet

variable {s : ResourceSet} {name : String}

/-- The names of the fields in the buffer of a set. -/
def fieldNames (s : ResourceSet) : List String :=
  s.uniforms.toList.flatMap fun l => l.fields.map (·.name)

/-- The textures of a set. -/
def boundTextures (s : ResourceSet) : List BoundTexture :=
  s.textures.toList.flatMap (·.textures)

/-- The names of the textures of a set. -/
def textureNames (s : ResourceSet) : List String :=
  s.boundTextures.map (·.name)

/-- The names that a set gives to its uniforms and textures. -/
def names (s : ResourceSet) : List String :=
  s.fieldNames ++ s.textureNames

theorem isSome_uniformBinding? : (s.uniformBinding? name).isSome ↔ name ∈ s.fieldNames := by
  cases hs : s.uniforms <;>
    simp [uniformBinding?, fieldNames, hs, Std140.Layout.contains, Std140.Layout.field?]

/-- The slot of a name is that of the first texture with it. -/
theorem textureBinding?_eq (s : ResourceSet) (name : String) :
    s.textureBinding? name =
      (s.boundTextures.find? (·.name == name)).map fun t => ⟨s.tier, t.slot⟩ := by
  cases hs : s.textures with
  | none => simp [textureBinding?, boundTextures, hs]
  | some g =>
    have hbound : s.boundTextures = g.textures := by simp [boundTextures, hs]
    rw [textureBinding?, hs, hbound, ← BindGroup.texture?]
    cases ht : g.texture? name <;> simp [ht]

theorem isSome_textureBinding? : (s.textureBinding? name).isSome ↔ name ∈ s.textureNames := by
  simp [textureBinding?_eq, textureNames]

end ResourceSet

namespace ResourceTiers

variable {tiers : ResourceTiers} {name : String}

theorem isSome_resolveUniform :
    (tiers.resolveUniform name).isSome ↔ ∃ s ∈ tiers, name ∈ s.fieldNames := by
  simp only [resolveUniform, List.findSome?_isSome_iff, ResourceSet.isSome_uniformBinding?]

theorem isSome_resolveTexture :
    (tiers.resolveTexture name).isSome ↔ ∃ s ∈ tiers, name ∈ s.textureNames := by
  simp only [resolveTexture, List.findSome?_isSome_iff, ResourceSet.isSome_textureBinding?]

end ResourceTiers

end ForwardShading
