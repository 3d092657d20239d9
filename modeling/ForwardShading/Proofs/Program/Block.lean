import ForwardShading.Program.Block

/-!
# What declaration blocks hold

The items of a block, read back: those of an attribute, those of a texture
(`BlockItem.ofTexture_eq`), and with explicit bindings those of all buffers and all groups that an
interface is written for (`BlockItem.ofResources_eq`).  What has a location is declared on a line of its
own (`BlockItem.text_input`, `BlockItem.text_varying`, `BlockItem.text_output`).
-/

namespace ForwardShading

namespace BoundTexture

/-- The type of a texture without its sampler. -/
def textureType (t : BoundTexture) : String :=
  t.kind.typePrefix ++ t.dimension.textureType

/-- The name under which a texture is declared.  An array of textures leaves its own name to the
combination with its sampler. -/
def variableName (t : BoundTexture) : String :=
  if t.dimension = .flatArray then t.name ++ "_texture" else t.name

/-- The name of the sampler that belongs to a texture. -/
def samplerName (t : BoundTexture) : String :=
  t.name ++ "_sampler"

end BoundTexture

namespace Interface

/-- The uniform buffers of the tiers and of the object. -/
def buffers (i : Interface) : List (Tier × Std140.Layout) :=
  i.tiers.filterMap (fun s => s.uniforms.map (s.tier, ·)) ++ [(.objectUniforms, i.layout.uniforms)]

/-- The bind groups of the tiers and of the object. -/
def groups (i : Interface) : List (Tier × BindGroup) :=
  i.tiers.filterMap (fun s => s.textures.map (s.tier, ·)) ++ [(.object, i.layout.textures)]

variable {i : Interface} {tier : Tier}

theorem mem_buffers {l : Std140.Layout} : (tier, l) ∈ i.buffers ↔
    (∃ s ∈ i.tiers, s.uniforms = some l ∧ s.tier = tier) ∨
      (tier = .objectUniforms ∧ l = i.layout.uniforms) := by
  simp [buffers]

theorem mem_groups {g : BindGroup} : (tier, g) ∈ i.groups ↔
    (∃ s ∈ i.tiers, s.textures = some g ∧ s.tier = tier) ∨
      (tier = .object ∧ g = i.layout.textures) := by
  simp [groups]

end Interface

/-- The line that declares something at a location. -/
def lineAt (location : Nat) (declaration : String) : String :=
  "layout(location = " ++ toString location ++ ") " ++ declaration ++ ";\n"

namespace BlockItem

theorem text_input (location : Nat) (type name : String) :
    (input location type name).text = lineAt location ("in " ++ type ++ " " ++ name) := by
  unfold lineAt
  show "layout(location = " ++ toString location ++ ") " ++ "in " ++ type ++ " " ++ name ++ ";\n" = _
  simp only [String.append_assoc]

theorem text_conversion (type name source : String) :
    (conversion type name source).text =
      type ++ " " ++ name ++ " = " ++ type ++ "(" ++ source ++ ");\n" :=
  rfl

theorem text_varying (location : Nat) (direction : Direction) (type name : String) :
    (varying (some location) direction type name).text =
      lineAt location (direction.keyword ++ " " ++ type ++ " " ++ name) := by
  unfold lineAt
  show "layout(location = " ++ toString location ++ ") " ++ direction.keyword ++ " " ++ type ++ " " ++
    name ++ ";\n" = _
  simp only [String.append_assoc]

theorem text_varying_none (direction : Direction) (type name : String) :
    (varying none direction type name).text =
      direction.keyword ++ " " ++ (type ++ " " ++ name) ++ ";\n" := by
  show "" ++ direction.keyword ++ " " ++ type ++ " " ++ name ++ ";\n" = _
  simp only [String.empty_append, String.append_assoc]

theorem text_output (location : Nat) (line : String) :
    (output location line).text = lineAt location ("out " ++ line) := by
  unfold lineAt
  show "layout(location = " ++ toString location ++ ") " ++ "out " ++ line ++ ";\n" = _
  simp only [String.append_assoc]

theorem text_uniformBlock (tier : Tier) (fields : List Std140.Field) :
    (uniformBlock tier fields).text =
      "layout(set = " ++ toString tier.group ++ ", binding = 0, std140) uniform ub_" ++ tier.name ++
        " \x7b\n" ++ String.join (fields.map fieldText) ++ "\x7d;\n" :=
  rfl

theorem text_texture (tier : Tier) (slot : Nat) (type name : String) :
    (texture tier slot type name).text =
      "layout(set = " ++ toString tier.group ++ ", binding = " ++ toString slot ++ ") uniform " ++
        type ++ " " ++ name ++ ";\n" := by
  show "layout(set = " ++ toString tier.group ++ ", binding = " ++ toString slot ++ ") " ++
    "uniform " ++ type ++ " " ++ name ++ ";\n" = _
  simp [String.append_assoc]

theorem text_sampler (tier : Tier) (slot : Nat) (name : String) :
    (sampler tier slot name).text =
      "layout(set = " ++ toString tier.group ++ ", binding = " ++ toString slot ++ ") uniform " ++
        "sampler" ++ " " ++ name ++ ";\n" := by
  show "layout(set = " ++ toString tier.group ++ ", binding = " ++ toString slot ++ ") " ++
    "uniform sampler " ++ name ++ ";\n" = _
  simp [String.append_assoc]

variable {i : Interface} {item : BlockItem}

theorem mem_ofAttribute {a : LocatedAttribute} (h : item ∈ ofAttribute a) :
    (∃ type name, item = .input a.location type name) ∨
      ∃ type source, item = .conversion type a.decl.name source := by
  unfold ofAttribute at h
  split at h
  · rcases List.mem_cons.1 h with rfl | h
    · exact .inl ⟨_, _, rfl⟩
    · exact .inr ⟨_, _, List.mem_singleton.1 h⟩
  · exact .inl ⟨_, _, List.mem_singleton.1 h⟩

/-- A texture, then its sampler, then the name that combines the two. -/
theorem ofTexture_eq (tier : Tier) (t : BoundTexture) :
    ofTexture tier t =
      .texture tier t.slot t.textureType t.variableName ::
        ((if t.hasSampler then [.sampler tier (t.slot + 1) t.samplerName] else []) ++
          if t.dimension = .flatArray then
            [.combination t.name (t.kind.typePrefix ++ t.dimension.samplerType) t.variableName
              t.samplerName]
          else
            []) := by
  unfold ofTexture BoundTexture.textureType BoundTexture.variableName BoundTexture.samplerName
  cases t.dimension <;> simp

theorem mem_ofTexture {tier : Tier} {t : BoundTexture} :
    item ∈ ofTexture tier t ↔
      item = .texture tier t.slot t.textureType t.variableName ∨
        (t.hasSampler ∧ item = .sampler tier (t.slot + 1) t.samplerName) ∨
        (t.dimension = .flatArray ∧
          item = .combination t.name (t.kind.typePrefix ++ t.dimension.samplerType) t.variableName
            t.samplerName) := by
  simp only [ofTexture_eq, List.mem_cons, List.mem_append, List.mem_ite_nil_right, List.not_mem_nil,
    or_false]

theorem ofResources_eq (i : Interface) :
    ofResources .explicitBinding i =
      i.buffers.map (fun (tier, l) => ofLayout tier l) ++
        i.groups.flatMap fun (tier, g) => ofBindGroup tier g := by
  have hbuffers : i.tiers.filterMap (fun s => s.uniforms.map (ofLayout s.tier)) =
      (i.tiers.filterMap fun s => s.uniforms.map (s.tier, ·)).map fun (tier, l) =>
        ofLayout tier l := by
    simp [List.map_filterMap, Option.map_map, Function.comp_def]
  have hgroups : i.tiers.flatMap (fun s => (s.textures.map (ofBindGroup s.tier)).getD []) =
      (i.tiers.filterMap fun s => s.textures.map (s.tier, ·)).flatMap fun (tier, g) =>
        ofBindGroup tier g := by
    induction i.tiers with
    | nil => rfl
    | cons s tiers ih =>
      cases hs : s.textures with
      | none => simp [hs, ih]
      | some g => simp [hs, ih]
  simp only [ofResources, hbuffers, hgroups, Interface.buffers, Interface.groups, List.map_append,
    List.flatMap_append, List.map_singleton, List.flatMap_singleton, List.append_assoc]

theorem mem_ofResources :
    item ∈ ofResources .explicitBinding i ↔
      (∃ tier l, (tier, l) ∈ i.buffers ∧ item = ofLayout tier l) ∨
        ∃ tier g, (tier, g) ∈ i.groups ∧ ∃ t ∈ g.textures, item ∈ ofTexture tier t := by
  simp [ofResources_eq, ofBindGroup, eq_comm]

end BlockItem

end ForwardShading
