import ForwardShading.Proofs.Binding.ObjectLayout

/-!
# Where uniforms are bound

A name resolves to the first set that has it (`ResourceTiers.resolveUniform_eq_some`,
`ResourceTiers.resolveTexture_eq_some`), and what resolves nowhere is left to the object, in the order
in which it was declared (`ObjectLayout.textures_of_allocate`, `ObjectLayout.fields_of_allocate`).  So
every uniform of a program is bound in one place (`ObjectLayout.allocate_partition`).
-/

namespace ForwardShading

open Glsl (Uniform SamplerType)

/-! ## The first set with a name -/

namespace ResourceSet

variable {s : ResourceSet} {name : String} {b : Binding}

theorem uniformBinding?_eq_none : s.uniformBinding? name = none ↔ name ∉ s.fieldNames := by
  rw [← Option.not_isSome_iff_eq_none, isSome_uniformBinding?]

theorem uniformBinding?_eq_some :
    s.uniformBinding? name = some b ↔ name ∈ s.fieldNames ∧ b = ⟨s.tier, 0⟩ := by
  rw [← isSome_uniformBinding?, uniformBinding?]
  split <;> simp [eq_comm]

theorem textureBinding?_eq_none : s.textureBinding? name = none ↔ name ∉ s.textureNames := by
  rw [← Option.not_isSome_iff_eq_none, isSome_textureBinding?]

theorem textureBinding?_eq_some :
    s.textureBinding? name = some b ↔
      ∃ t, s.boundTextures.find? (·.name == name) = some t ∧ b = ⟨s.tier, t.slot⟩ := by
  rw [textureBinding?_eq, Option.map_eq_some_iff]
  simp only [eq_comm (a := b)]

end ResourceSet

namespace ResourceTiers

variable {tiers : ResourceTiers} {name : String} {b : Binding}

/-- A uniform resolves to the first slot of the first set that has its name. -/
theorem resolveUniform_eq_some :
    tiers.resolveUniform name = some b ↔
      ∃ before s after, tiers = before ++ s :: after ∧ (∀ r ∈ before, name ∉ r.fieldNames) ∧
        name ∈ s.fieldNames ∧ b = ⟨s.tier, 0⟩ := by
  simp only [resolveUniform, List.findSome?_eq_some_iff, ResourceSet.uniformBinding?_eq_some,
    ResourceSet.uniformBinding?_eq_none]
  grind

/-- A texture resolves to its slot in the first set that has its name. -/
theorem resolveTexture_eq_some :
    tiers.resolveTexture name = some b ↔
      ∃ before s after t, tiers = before ++ s :: after ∧ (∀ r ∈ before, name ∉ r.textureNames) ∧
        s.boundTextures.find? (·.name == name) = some t ∧ b = ⟨s.tier, t.slot⟩ := by
  simp only [resolveTexture, List.findSome?_eq_some_iff, ResourceSet.textureBinding?_eq_some,
    ResourceSet.textureBinding?_eq_none]
  grind

end ResourceTiers

/-! ## What is left to the object -/

namespace ObjectLayout

/-- The uniforms that are no samplers and that no set has. -/
def ownNumerics (tiers : ResourceTiers) (us : List Uniform) : List Uniform :=
  us.filter fun u => u.sampler = none ∧ ∀ s ∈ tiers, u.name ∉ s.fieldNames

/-- The samplers that no set has. -/
def ownSamplers (tiers : ResourceTiers) (us : List Uniform) : List Uniform :=
  us.filter fun u => u.sampler.isSome ∧ ∀ s ∈ tiers, u.name ∉ s.textureNames

variable {tiers : ResourceTiers} {us : List Uniform} {l : ObjectLayout}

theorem ownNumerics_eq (tiers : ResourceTiers) (us : List Uniform) :
    ownNumerics tiers us = (us.filter (!·.isProvided tiers)).filter (·.sampler.isNone) := by
  rw [List.filter_filter]
  refine List.filter_congr fun u _ => ?_
  cases hu : u.sampler with
  | some t => simp
  | none =>
    have hresolves : (tiers.resolveUniform u.name).isSome ↔ ∃ s ∈ tiers, u.name ∈ s.fieldNames :=
      ResourceTiers.isSome_resolveUniform
    rw [← Uniform.isProvided_of_numeric hu] at hresolves
    cases h : u.isProvided tiers <;> simp_all

theorem ownSamplers_eq (tiers : ResourceTiers) (us : List Uniform) :
    ownSamplers tiers us = (us.filter (!·.isProvided tiers)).filter (·.sampler.isSome) := by
  rw [List.filter_filter]
  refine List.filter_congr fun u _ => ?_
  cases hu : u.sampler with
  | none => simp
  | some t =>
    have hresolves : (tiers.resolveTexture u.name).isSome ↔ ∃ s ∈ tiers, u.name ∈ s.textureNames :=
      ResourceTiers.isSome_resolveTexture
    rw [← Uniform.isProvided_of_sampler hu] at hresolves
    cases h : u.isProvided tiers <;> simp_all

/-- The entry of an object's bind group for a sampler uniform. -/
structure IsEntry (u : Uniform) (slot : Nat) (t : BoundTexture) : Prop where
  name : t.name = u.name
  sampler : ∃ type, u.sampler = some type ∧ t.dimension = type.dimension ∧ t.kind = u.sampleKind type
  hasSampler : t.hasSampler = true
  slot : t.slot = slot

/-- The entry of an object's uniform buffer for a numeric uniform. -/
structure IsField (u : Uniform) (f : Std140.PlacedField) : Prop where
  name : f.name = u.name
  type : f.type.name = u.typeName
  count : f.count = u.arraySize

theorem forall₂_assign (n : Nat) (us : List Uniform) :
    List.Forall₂ (fun u t => IsEntry u.1 (2 * u.2) t) ((us.filter (·.sampler.isSome)).zipIdx n)
      (BindGroup.assign (2 * n) (texturesOf us)) := by
  induction us generalizing n with
  | nil => exact .nil
  | cons u us ih =>
    cases hu : u.sampler with
    | none =>
      have htextures : texturesOf (u :: us) = texturesOf us := by simp [texturesOf, hu]
      rw [List.filter_cons_of_neg (by simp [hu]), htextures]
      exact ih n
    | some type =>
      have htextures : texturesOf (u :: us) = u.texture type :: texturesOf us := by
        simp [texturesOf, hu]
      rw [List.filter_cons_of_pos (by simp [hu]), htextures, List.zipIdx_cons]
      exact .cons ⟨rfl, ⟨type, hu, rfl, rfl⟩, rfl, rfl⟩ (ih (n + 1))

/-- The bind group of the object holds its samplers in their order, each two slots behind the one
before. -/
theorem textures_of_allocate (h : allocate tiers us = .ok l) :
    List.Forall₂ (fun u t => IsEntry u.1 (2 * u.2) t) (ownSamplers tiers us).zipIdx
      l.textures.textures := by
  obtain ⟨fields, -, -, htextures⟩ := exists_fields_of_allocate h
  rw [htextures, ownSamplers_eq]
  exact forall₂_assign 0 (us.filter (!·.isProvided tiers))

/-- The buffer of the object holds its numeric uniforms in their order, and the stand-in where there
are none. -/
theorem fields_of_allocate (h : allocate tiers us = .ok l) :
    if ownNumerics tiers us = [] then l.uniforms.fields.map (·.toField) = [Std140.placeholder]
    else List.Forall₂ IsField (ownNumerics tiers us) l.uniforms.fields := by
  obtain ⟨fields, hfields, hlayout, -⟩ := exists_fields_of_allocate h
  rw [fieldsOf, ← ownNumerics_eq, mapM_eq_ok] at hfields
  have hplaced := (Std140.Layout.between_ofFieldsWithin hlayout).1
  split
  · rename_i hnone
    rw [hnone, List.forall₂_nil_left_iff] at hfields
    rw [hplaced, hfields]
    rfl
  · rename_i hown
    have hne : fields ≠ [] := by
      rintro rfl
      exact hown (List.forall₂_nil_right_iff.1 hfields)
    have hsame : l.uniforms.fields.map (·.toField) = fields := by
      rw [hplaced, Std140.orPlaceholder_eq_self hne]
    rw [← hsame, List.forall₂_map_right_iff] at hfields
    exact hfields.imp fun u f hf =>
      ⟨(Uniform.eq_of_field hf).1, (Uniform.eq_of_field hf).2.1, (Uniform.eq_of_field hf).2.2⟩

/-! ## The place of a uniform -/

/-- What becomes of a merged uniform. -/
inductive UniformClass
  /-- Samplers that a set has. -/
  | tierTexture
  /-- Numeric uniforms that a set has. -/
  | tierUniform
  | objectTexture
  | objectUniform
  deriving DecidableEq

/-- Holds of the classes that a uniform falls in when `l` is the layout of `us`.  A field that stands
in for an empty buffer puts no uniform in the buffer of the object. -/
def FallsIn (tiers : ResourceTiers) (us : List Uniform) (l : ObjectLayout) (u : Uniform) :
    UniformClass → Prop
  | .tierTexture => u.sampler.isSome ∧ ∃ s ∈ tiers, u.name ∈ s.textureNames
  | .tierUniform => u.sampler = none ∧ ∃ s ∈ tiers, u.name ∈ s.fieldNames
  | .objectTexture => ∃ t ∈ l.textures.textures, t.name = u.name
  | .objectUniform => ownNumerics tiers us ≠ [] ∧ ∃ f ∈ l.uniforms.fields, f.name = u.name

section Classes

variable {u : Uniform}

/-- Where names differ, a name is that of a chosen uniform only if the uniform with the name is
chosen. -/
theorem name_mem_filter {p : Uniform → Bool} (hn : (us.map (·.name)).Nodup) (hu : u ∈ us) :
    u.name ∈ (us.filter p).map (·.name) ↔ p u = true := by
  constructor
  · intro hmem
    obtain ⟨w, hw, hname⟩ := List.mem_map.1 hmem
    obtain ⟨hwus, hp⟩ := List.mem_filter.1 hw
    exact List.inj_on_of_nodup_map hn hwus hu hname ▸ hp
  · exact fun hp => List.mem_map_of_mem (List.mem_filter.2 ⟨hu, hp⟩)

theorem fallsIn_objectTexture (h : allocate tiers us = .ok l) (hn : (us.map (·.name)).Nodup)
    (hu : u ∈ us) : FallsIn tiers us l u .objectTexture ↔
      u.sampler.isSome ∧ ∀ s ∈ tiers, u.name ∉ s.textureNames := by
  have hnames : l.textures.textures.map (·.name) = (ownSamplers tiers us).map (·.name) := by
    rw [ownSamplers_eq, ← textureNames_of_allocate h]
    simp [resources, ResourceSet.textureNames, ResourceSet.boundTextures]
  rw [FallsIn, ← List.mem_map, hnames, ownSamplers, name_mem_filter hn hu, decide_eq_true_eq]

theorem fallsIn_objectUniform (h : allocate tiers us = .ok l) (hn : (us.map (·.name)).Nodup)
    (hu : u ∈ us) : FallsIn tiers us l u .objectUniform ↔
      u.sampler = none ∧ ∀ s ∈ tiers, u.name ∉ s.fieldNames := by
  have hown : u.name ∈ (ownNumerics tiers us).map (·.name) ↔
      u.sampler = none ∧ ∀ s ∈ tiers, u.name ∉ s.fieldNames := by
    rw [ownNumerics, name_mem_filter hn hu, decide_eq_true_eq]
  have hfields := fields_of_allocate h
  rw [FallsIn, ← hown]
  split at hfields
  · rename_i hnone
    simp [hnone]
  · rename_i hne
    have hnames : l.uniforms.fields.map (·.name) = (ownNumerics tiers us).map (·.name) := by
      refine (List.forall₂_eq_eq_eq ▸ List.forall₂_map_left_iff.2 (List.forall₂_map_right_iff.2 ?_))
      exact hfields.flip.imp fun _ _ hf => hf.name
    rw [← hnames]
    simp [hne]

/-- The class of a uniform is told by its kind and by whether a set has its name. -/
def classOf (tiers : ResourceTiers) (u : Uniform) : UniformClass :=
  if u.sampler.isSome then
    if ∃ s ∈ tiers, u.name ∈ s.textureNames then .tierTexture else .objectTexture
  else
    if ∃ s ∈ tiers, u.name ∈ s.fieldNames then .tierUniform else .objectUniform

theorem fallsIn_iff (h : allocate tiers us = .ok l) (hn : (us.map (·.name)).Nodup) (hu : u ∈ us)
    (c : UniformClass) : FallsIn tiers us l u c ↔ c = classOf tiers u := by
  have htexture := fallsIn_objectTexture h hn hu
  have huniform := fallsIn_objectUniform h hn hu
  unfold classOf
  cases hs : u.sampler with
  | some type =>
    by_cases hheld : ∃ s ∈ tiers, u.name ∈ s.textureNames <;> cases c <;> grind [FallsIn]
  | none =>
    by_cases hheld : ∃ s ∈ tiers, u.name ∈ s.fieldNames <;> cases c <;> grind [FallsIn]

end Classes

/-- Every uniform is bound in one place: by the first set that has its name, or by the object.  What is
left to the object is there in the order of the uniforms. -/
theorem allocate_partition (h : allocate tiers us = .ok l) (hn : (us.map (·.name)).Nodup) :
    (∀ u ∈ us, ∃! c, FallsIn tiers us l u c) ∧
    List.Forall₂ (fun u t => IsEntry u.1 (2 * u.2) t) (ownSamplers tiers us).zipIdx
      l.textures.textures ∧
    (if ownNumerics tiers us = [] then l.uniforms.fields.map (·.toField) = [Std140.placeholder]
      else List.Forall₂ IsField (ownNumerics tiers us) l.uniforms.fields) ∧
    (∀ name b, tiers.resolveUniform name = some b ↔
      ∃ before s after, tiers = before ++ s :: after ∧ (∀ r ∈ before, name ∉ r.fieldNames) ∧
        name ∈ s.fieldNames ∧ b = ⟨s.tier, 0⟩) ∧
    ∀ name b, tiers.resolveTexture name = some b ↔
      ∃ before s after t, tiers = before ++ s :: after ∧ (∀ r ∈ before, name ∉ r.textureNames) ∧
        s.boundTextures.find? (·.name == name) = some t ∧ b = ⟨s.tier, t.slot⟩ :=
  ⟨fun _ hu => ⟨_, (fallsIn_iff h hn hu _).2 rfl, fun c hc => (fallsIn_iff h hn hu c).1 hc⟩,
    textures_of_allocate h, fields_of_allocate h, fun _ _ => ResourceTiers.resolveUniform_eq_some,
    fun _ _ => ResourceTiers.resolveTexture_eq_some⟩

/-- Two sets have `view_position`, of which the first one binds it, and one of the samplers is bound by
the view behind its buffer. -/
theorem allocate_partition_layered :
    let vec3 : Glsl.NumericType := .vector .float .three
    let tiers : ResourceTiers :=
      [.of .view (some (.ofFields [⟨"matrix_viewProjection", .matrix .four, 0⟩,
          ⟨"view_position", vec3, 0⟩])) [⟨"texture_envAtlas", ⟨true, true⟩, .flat, .float, true⟩],
        .of .material (some (.ofFields [⟨"view_position", vec3, 0⟩])) []]
    let us : List Uniform :=
      [⟨"sampler2D texture_diffuseMap", none, "sampler2D", "texture_diffuseMap", 0,
          some ⟨.flat, .color⟩⟩,
        ⟨"vec3 view_position", none, "vec3", "view_position", 0, none⟩,
        ⟨"vec4 tints[3]", none, "vec4", "tints", 3, none⟩,
        ⟨"sampler2D texture_envAtlas", none, "sampler2D", "texture_envAtlas", 0,
          some ⟨.flat, .color⟩⟩,
        ⟨"highp samplerCube texture_sky", some .high, "samplerCube", "texture_sky", 0,
          some ⟨.cube, .color⟩⟩]
    (us.map (·.name)).Nodup ∧ tiers.resolveUniform "view_position" = some ⟨.view, 0⟩ ∧
      tiers.resolveTexture "texture_envAtlas" = some ⟨.view, 1⟩ ∧
      ∃ l, allocate tiers us = .ok l ∧ l.uniforms.fields.map (·.name) = ["tints"] ∧
        l.textures.textures.map (fun t => (t.name, t.kind, t.slot)) =
          [("texture_diffuseMap", .float, 0), ("texture_sky", .unfilterableFloat, 2)] ∧
        ∀ u ∈ us, ∃! c, FallsIn tiers us l u c := by
  intro vec3 tiers us
  have hnodup : (us.map (·.name)).Nodup := by decide
  obtain ⟨l, hl, hparts⟩ := map_eq_ok.1 (show (fun l => (l.uniforms.fields.map (·.name),
      l.textures.textures.map fun t => (t.name, t.kind, t.slot))) <$> allocate tiers us =
        .ok (["tints"],
          [("texture_diffuseMap", .float, 0), ("texture_sky", .unfilterableFloat, 2)]) by
    decide +kernel)
  obtain ⟨hfields, htextures⟩ := Prod.mk.inj hparts
  exact ⟨hnodup, by decide +kernel, by decide +kernel, l, hl, hfields, htextures,
    (allocate_partition hl hnodup).1⟩

end ObjectLayout

end ForwardShading
