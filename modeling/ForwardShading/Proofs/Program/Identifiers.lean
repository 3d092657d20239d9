import ForwardShading.Proofs.Program.Basic
import ForwardShading.Proofs.Program.Block
import ForwardShading.Proofs.Program.Linkage
import Mathlib.Data.List.Perm.Basic

/-!
# Identifiers that blocks declare

The identifiers of a block come from several sources: attributes, varyings or outputs, and the fields,
textures and derived names of every resource set.  Apart from lines that list several names, and from
blocks of the same tier, no source repeats an identifier.  Across the sources nothing is checked but
that the object has no uniform and no texture that a tier has, so a block declares every identifier
once exactly if its sources have none in common (`Program.nodup_identifiers`).
-/

namespace ForwardShading

namespace Glsl

open Text

/-- A text without what stands in brackets. -/
def withoutBrackets (depth : Nat) : List Char → List Char
  | [] => []
  | '[' :: cs => withoutBrackets (depth + 1) cs
  | ']' :: cs => withoutBrackets (depth - 1) cs
  | c :: cs => if depth = 0 then c :: withoutBrackets depth cs else withoutBrackets depth cs

/-- The identifiers of a declaration: the last word of each part between commas, array sizes left
out. -/
def declaredNames (line : String) : List String :=
  ((withoutBrackets 0 line.toList).splitOn ',').map fun part =>
    String.ofList ((words part).getLastD [])

end Glsl

/-! ## Sources of identifiers -/

namespace BoundTexture

/-- The names that a texture is declared with besides its own. -/
def derivedNames (t : BoundTexture) : List String :=
  (if t.dimension = .flatArray then [t.variableName] else []) ++
    if t.hasSampler then [t.samplerName] else []

theorem mem_derivedNames {t : BoundTexture} {name : String} (h : name ∈ t.derivedNames) :
    name = t.name ++ "_texture" ∨ name = t.name ++ "_sampler" := by
  rcases List.mem_append.1 h with h | h
  · rw [List.mem_ite_nil_right, List.mem_singleton] at h
    exact .inl (by rw [h.2, variableName, if_pos h.1])
  · rw [List.mem_ite_nil_right, List.mem_singleton] at h
    exact .inr h.2

theorem nodup_derivedNames (t : BoundTexture) : t.derivedNames.Nodup := by
  refine List.Nodup.append (by split <;> simp) (by split <;> simp) fun name hvariable hsampler => ?_
  rw [List.mem_ite_nil_right, List.mem_singleton] at hvariable hsampler
  have heq : t.name ++ "_texture" = t.name ++ "_sampler" := by
    rw [← samplerName, ← hsampler.2, hvariable.2, variableName, if_pos hvariable.1]
  exact absurd ((String.append_right_inj _).1 heq) (by decide)

/-- The two endings are equally long, so names derived from different names are different. -/
theorem disjoint_derivedNames {t t' : BoundTexture} (h : t.name ≠ t'.name) :
    t.derivedNames.Disjoint t'.derivedNames := by
  have hends : ∀ {e e' : String}, e.toList.length = e'.toList.length →
      t.name ++ e ≠ t'.name ++ e' := by
    intro e e' hlength heq
    have hlists := congrArg String.toList heq
    rw [String.toList_append, String.toList_append] at hlists
    exact h (String.toList_injective (List.append_inj' hlists hlength).1)
  intro name hname hname'
  rcases mem_derivedNames hname with rfl | rfl <;>
    rcases mem_derivedNames hname' with heq | heq <;> exact hends (by decide) heq

end BoundTexture

namespace ResourceSet

/-- The names that are made for the textures of a set. -/
def derivedNames (s : ResourceSet) : List String :=
  s.boundTextures.flatMap (·.derivedNames)

theorem nodup_derivedNames {s : ResourceSet} (h : s.textureNames.Nodup) : s.derivedNames.Nodup :=
  List.nodup_flatMap.2 ⟨fun t _ => t.nodup_derivedNames,
    (List.pairwise_map.1 h).imp BoundTexture.disjoint_derivedNames⟩

end ResourceSet

/-- The name under which an attribute with integer data is received. -/
def LocatedAttribute.privateNames (a : LocatedAttribute) : List String :=
  if (a.element.filter (·.needsIntegerAttribute)).isSome then ["_private_" ++ a.decl.name] else []

theorem LocatedAttribute.eq_of_mem_privateNames {a : LocatedAttribute} {name : String}
    (h : name ∈ a.privateNames) : name = "_private_" ++ a.decl.name := by
  rw [privateNames, List.mem_ite_nil_right, List.mem_singleton] at h
  exact h.2

/-- The names that the declaration of a varying declares. -/
def LocatedVarying.identifiers (v : LocatedVarying) : List String :=
  Glsl.declaredNames (v.decl.qualifiedType ++ " " ++ v.decl.name)

namespace Interface

variable (i : Interface)

/-- The sets of the tiers and of the object. -/
def sets : List ResourceSet :=
  i.tiers ++ [i.layout.resources]

/-- The names of the uniform blocks. -/
def blockNames : List String :=
  i.buffers.map fun (tier, _) => "ub_" ++ tier.name

/-- The lists from which the names of resources come, one for each kind and tier. -/
def resourceSources : List (List String) :=
  i.blockNames :: (i.sets.map (·.fieldNames) ++
    (i.sets.map (·.textureNames) ++ i.sets.map (·.derivedNames)))

/-- The lists from which the names of a vertex block come. -/
def vertexSources : List (List String) :=
  i.attributes.map (·.decl.name) :: i.attributes.flatMap (·.privateNames) ::
    i.vertexVaryings.flatMap (·.identifiers) :: i.resourceSources

/-- The lists from which the names of a fragment block come. -/
def fragmentSources : List (List String) :=
  i.fragmentVaryings.flatMap (·.identifiers) ::
    i.outputs.flatMap (Glsl.declaredNames ·.decl.line) :: i.resourceSources

end Interface

/-! ## Identifiers of a block -/

namespace BlockItem

/-- The identifiers that an item declares. -/
def identifiers : BlockItem → List String
  | input _ _ name => [name]
  | conversion _ name _ => [name]
  | varying _ _ type name => Glsl.declaredNames (type ++ " " ++ name)
  | output _ line => Glsl.declaredNames line
  | uniformBlock tier fields => ("ub_" ++ tier.name) :: fields.map (·.name)
  | texture _ _ _ name => [name]
  | sampler _ _ name => [name]
  | combination name _ _ _ => [name]
  | looseUniform line => Glsl.declaredNames line
  | gap => []

/-- The forms of the lines of a block, each with the identifiers that a line of that form declares.
The members of a uniform block are declared next to it. -/
inductive LineDeclares : String → List String → Prop
  | blank : LineDeclares "\n" []
  | attribute (location : Nat) (type name : String) :
    LineDeclares (lineAt location ("in " ++ type ++ " " ++ name)) [name]
  | converted (type name source : String) :
    LineDeclares (type ++ " " ++ name ++ " = " ++ type ++ "(" ++ source ++ ");\n") [name]
  | located (location : Nat) (direction : Direction) (line : String) :
    LineDeclares (lineAt location (direction.keyword ++ " " ++ line)) (Glsl.declaredNames line)
  | linked (direction : Direction) (line : String) :
    LineDeclares (direction.keyword ++ " " ++ line ++ ";\n") (Glsl.declaredNames line)
  | block (tier : Tier) (fields : List Std140.Field) :
    LineDeclares ("layout(set = " ++ toString tier.group ++ ", binding = 0, std140) uniform ub_" ++
        tier.name ++ " \x7b\n" ++ String.join (fields.map fieldText) ++ "\x7d;\n")
      (("ub_" ++ tier.name) :: fields.map (·.name))
  | bound (group slot : Nat) (type name : String) :
    LineDeclares ("layout(set = " ++ toString group ++ ", binding = " ++ toString slot ++
      ") uniform " ++ type ++ " " ++ name ++ ";\n") [name]
  | combined (name type textureName samplerName : String) :
    LineDeclares ("#define " ++ name ++ " " ++ type ++ "(" ++ textureName ++ ", " ++ samplerName ++
      ")\n") [name]
  | loose (line : String) :
    LineDeclares ("uniform " ++ line ++ ";\n") (Glsl.declaredNames line)

/-- The text of an item declares the identifiers of the item. -/
theorem lineDeclares_text (item : BlockItem) : LineDeclares item.text item.identifiers := by
  cases item with
  | input location type name =>
    rw [text_input]
    exact .attribute location type name
  | conversion type name source => exact .converted type name source
  | varying location direction type name =>
    show LineDeclares _ (Glsl.declaredNames (type ++ " " ++ name))
    cases location with
    | none =>
      rw [text_varying_none]
      exact .linked direction _
    | some location =>
      have hline : direction.keyword ++ " " ++ type ++ " " ++ name =
          direction.keyword ++ " " ++ (type ++ " " ++ name) := by
        simp only [String.append_assoc]
      rw [text_varying, hline]
      exact .located location direction _
  | output location line =>
    rw [text_output]
    exact .located location .output line
  | uniformBlock tier fields =>
    rw [text_uniformBlock]
    exact .block tier fields
  | texture tier slot type name =>
    rw [text_texture]
    exact .bound tier.group slot type name
  | sampler tier slot name =>
    rw [text_sampler]
    exact .bound tier.group slot "sampler" name
  | combination name type textureName samplerName =>
    exact .combined name type textureName samplerName
  | looseUniform line => exact .loose line
  | gap => exact .blank

/-- The names that the items of a block declare, in order. -/
def blockIdentifiers (items : List BlockItem) : List String :=
  items.flatMap identifiers

theorem blockIdentifiers_append (items items' : List BlockItem) :
    blockIdentifiers (items ++ items') = blockIdentifiers items ++ blockIdentifiers items' :=
  List.flatMap_append

theorem blockIdentifiers_gap : blockIdentifiers [gap] = [] :=
  rfl

theorem blockIdentifiers_flatMap {α : Type} (as : List α) (f : α → List BlockItem) :
    blockIdentifiers (as.flatMap f) = as.flatMap fun a => blockIdentifiers (f a) :=
  List.flatMap_assoc

theorem blockIdentifiers_ofAttribute (a : LocatedAttribute) :
    (blockIdentifiers (ofAttribute a)).Perm (a.decl.name :: a.privateNames) := by
  unfold ofAttribute LocatedAttribute.privateNames
  cases a.element.filter (·.needsIntegerAttribute) with
  | none => exact .refl _
  | some e => exact .swap _ _ _

theorem blockIdentifiers_ofTexture (tier : Tier) (t : BoundTexture) :
    (blockIdentifiers (ofTexture tier t)).Perm (t.name :: t.derivedNames) := by
  rw [ofTexture_eq]
  unfold BoundTexture.derivedNames
  by_cases harray : t.dimension = .flatArray
  · rw [if_pos harray, if_pos harray]
    cases t.hasSampler with
    | false => exact (List.perm_append_comm : ([t.variableName] ++ [t.name]).Perm _)
    | true =>
      exact (List.perm_append_comm : ([t.variableName, t.samplerName] ++ [t.name]).Perm _)
  · have hname : t.variableName = t.name := if_neg harray
    rw [if_neg harray, if_neg harray, hname]
    cases t.hasSampler <;> exact .refl _

end BlockItem

namespace Interface

open BlockItem
open scoped List

variable (i : Interface)

theorem blockIdentifiers_attributes :
    (blockIdentifiers (i.attributes.flatMap ofAttribute)).Perm
      (i.attributes.map (·.decl.name) ++ i.attributes.flatMap (·.privateNames)) := by
  rw [blockIdentifiers_flatMap]
  exact (List.Perm.flatMap_left _ fun a _ => blockIdentifiers_ofAttribute a).trans
    (List.map_append_flatMap_perm _ _ _).symm

/-- What some sets have, listed with their tiers, has what the sets have. -/
theorem flatMap_filterMap {γ δ : Type} (sets : List ResourceSet) (f : ResourceSet → Option γ)
    (g : γ → List δ) :
    (sets.filterMap fun s => (f s).map (s.tier, ·)).flatMap (fun x => g x.2) =
      sets.flatMap fun s => (f s).toList.flatMap g := by
  induction sets with
  | nil => rfl
  | cons s sets ih =>
    cases hs : f s with
    | none => simpa [hs] using ih
    | some c => simpa [hs] using ih

theorem flatMap_buffers :
    i.buffers.flatMap (fun x => x.2.fields.map (·.name)) = i.sets.flatMap (·.fieldNames) := by
  rw [buffers, sets, List.flatMap_append, List.flatMap_append,
    flatMap_filterMap i.tiers (·.uniforms) fun l => l.fields.map (·.name)]
  simp [ResourceSet.fieldNames, ObjectLayout.resources]

theorem flatMap_groups {δ : Type} (f : BoundTexture → List δ) :
    i.groups.flatMap (fun x => x.2.textures.flatMap f) =
      i.sets.flatMap fun s => s.boundTextures.flatMap f := by
  rw [groups, sets, List.flatMap_append, List.flatMap_append,
    flatMap_filterMap i.tiers (·.textures) fun g => g.textures.flatMap f]
  simp [ResourceSet.boundTextures, ObjectLayout.resources, List.flatMap_assoc]

theorem blockIdentifiers_ofResources :
    (blockIdentifiers (ofResources .explicitBinding i)).Perm i.resourceSources.flatten := by
  have hbuffers : (blockIdentifiers (i.buffers.map fun x => ofLayout x.1 x.2)).Perm
      (i.blockNames ++ i.sets.flatMap (·.fieldNames)) := by
    rw [← flatMap_buffers, blockIdentifiers, List.flatMap_map]
    refine .trans (.of_eq (List.flatMap_congr fun x _ => ?_))
      (List.map_append_flatMap_perm _ _ _).symm
    simp [ofLayout, identifiers, Function.comp_def]
  have hgroups : (blockIdentifiers (i.groups.flatMap fun x => ofBindGroup x.1 x.2)).Perm
      (i.sets.flatMap (·.textureNames) ++ i.sets.flatMap (·.derivedNames)) := by
    rw [blockIdentifiers_flatMap]
    calc i.groups.flatMap (fun x => blockIdentifiers (ofBindGroup x.1 x.2))
        = i.groups.flatMap fun x => x.2.textures.flatMap fun t =>
            blockIdentifiers (ofTexture x.1 t) :=
          List.flatMap_congr fun x _ => blockIdentifiers_flatMap _ _
      _ ~ i.groups.flatMap fun x => x.2.textures.flatMap fun t => t.name :: t.derivedNames :=
          .flatMap_left _ fun x _ => .flatMap_left _ fun t _ => blockIdentifiers_ofTexture x.1 t
      _ = i.sets.flatMap fun s => s.boundTextures.flatMap fun t => t.name :: t.derivedNames :=
          i.flatMap_groups _
      _ ~ i.sets.flatMap fun s => s.textureNames ++ s.derivedNames :=
          .flatMap_left _ fun s _ => (List.map_append_flatMap_perm _ _ _).symm
      _ ~ _ := (List.flatMap_append_perm _ _ _).symm
  rw [ofResources_eq, blockIdentifiers_append]
  refine (hbuffers.append hgroups).trans (.of_eq ?_)
  simp [resourceSources, List.flatMap_def]

theorem blockIdentifiers_vertexBlock :
    (blockIdentifiers (i.vertexBlock .explicitBinding)).Perm i.vertexSources.flatten := by
  have hvaryings : blockIdentifiers (i.vertexVaryings.map (ofVarying .explicitBinding .output)) =
      i.vertexVaryings.flatMap (·.identifiers) :=
    List.flatMap_map ..
  simp only [vertexBlock, blockIdentifiers_append, blockIdentifiers_gap, List.append_nil, hvaryings]
  refine ((i.blockIdentifiers_attributes.append_right _).append i.blockIdentifiers_ofResources).trans
    (.of_eq ?_)
  simp [vertexSources]

theorem blockIdentifiers_fragmentBlock :
    (blockIdentifiers (i.fragmentBlock .explicitBinding)).Perm i.fragmentSources.flatten := by
  have hvaryings : blockIdentifiers (i.fragmentVaryings.map (ofVarying .explicitBinding .input)) =
      i.fragmentVaryings.flatMap (·.identifiers) :=
    List.flatMap_map ..
  have houtputs : blockIdentifiers (i.outputs.map fun o => output o.location o.decl.line) =
      i.outputs.flatMap (Glsl.declaredNames ·.decl.line) :=
    List.flatMap_map ..
  simp only [fragmentBlock, blockIdentifiers_append, blockIdentifiers_gap, List.append_nil, hvaryings,
    houtputs]
  refine (i.blockIdentifiers_ofResources.append_left _).trans (.of_eq ?_)
  simp [fragmentSources]

/-! ## Sources that repeat nothing -/

theorem locate_eq_ok {d : Definition} {o : Surroundings} {a : Glsl.Attribute} {l : LocatedAttribute}
    (h : locate d o a = .ok l) :
    l.decl = a ∧ (d.attributes.get? a.name).bind (·.location?) = some l.location := by
  unfold locate at h
  cases hsemantic : d.attributes.get? a.name with
  | none =>
    rw [hsemantic] at h
    cases h
  | some semantic =>
    simp only [hsemantic] at h
    cases hlocation : semantic.location? with
    | none =>
      rw [hlocation] at h
      cases h
    | some location =>
      rw [hlocation] at h
      cases h
      exact ⟨rfl, hlocation⟩

/-- Attributes that could all be located are located one by one, at different locations. -/
theorem exists_located {d : Definition} {o : Surroundings} {located rs : List LocatedAttribute}
    {as : List Glsl.Attribute} (h : locateAttributes d o located as = .ok rs)
    (hnodup : (located.map (·.location)).Nodup) :
    ∃ ls, rs = located ++ ls ∧ as.mapM (locate d o) = .ok ls ∧ (rs.map (·.location)).Nodup := by
  simp only [mapM_eq_ok]
  induction as generalizing located with
  | nil =>
    cases h
    exact ⟨[], (List.append_nil _).symm, .nil, hnodup⟩
  | cons a as ih =>
    obtain ⟨l, hl, h⟩ := bind_eq_ok.1 h
    cases hfind : located.find? (·.location == l.location) with
    | some first =>
      rw [hfind] at h
      cases h
    | none =>
      rw [hfind] at h
      obtain ⟨ls, rfl, hls, hrs⟩ := ih h (nodup_map_concat hnodup (find?_key_eq_none.1 hfind))
      exact ⟨l :: ls, List.append_assoc .., .cons hl hls, hrs⟩

theorem locateAttributes_eq_ok {d : Definition} {o : Surroundings} {rs : List LocatedAttribute}
    {as : List Glsl.Attribute} (h : locateAttributes d o [] as = .ok rs) :
    as.mapM (locate d o) = .ok rs ∧ (rs.map (·.location)).Nodup := by
  obtain ⟨ls, hrs, hls, hnodup⟩ := exists_located h List.nodup_nil
  rw [List.nil_append] at hrs
  exact ⟨hrs ▸ hls, hnodup⟩

/-- The name of an attribute decides its location, so different locations have different names. -/
theorem nodup_attributeNames {d : Definition} {o : Surroundings} {rs : List LocatedAttribute}
    {as : List Glsl.Attribute} (h : locateAttributes d o [] as = .ok rs) :
    (rs.map (·.decl.name)).Nodup := by
  obtain ⟨hlocate, hnodup⟩ := locateAttributes_eq_ok h
  have hlocation : ∀ l ∈ rs,
      (d.attributes.get? l.decl.name).bind (·.location?) = some l.location := by
    intro l hl
    obtain ⟨a, -, ha⟩ := exists_of_mem_mapM hlocate hl
    rw [(locate_eq_ok ha).1, (locate_eq_ok ha).2]
  refine List.pairwise_map.2 ((List.pairwise_map.1 hnodup).imp_of_mem fun hl hl' hne hname => hne ?_)
  have heq := hlocation _ hl
  rw [hname, hlocation _ hl'] at heq
  exact (Option.some.inj heq).symm

theorem nodup_privateNames {as : List LocatedAttribute} (h : (as.map (·.decl.name)).Nodup) :
    (as.flatMap (·.privateNames)).Nodup := by
  refine List.nodup_flatMap.2 ⟨fun a _ => ?_, (List.pairwise_map.1 h).imp fun hne name hname hname' =>
    hne ((String.append_right_inj "_private_").1 ?_)⟩
  · unfold LocatedAttribute.privateNames
    split <;> simp
  · exact (LocatedAttribute.eq_of_mem_privateNames hname).symm.trans
      (LocatedAttribute.eq_of_mem_privateNames hname')

/-- Vertex varyings have different names, so they repeat no identifier if each declares its name
alone. -/
theorem nodup_varyingIdentifiers {varyings : List LocatedVarying} {vs : List Glsl.Varying}
    (h : locateVaryings [] vs = .ok varyings)
    (hnames : ∀ v ∈ varyings, v.identifiers = [v.decl.name]) :
    (varyings.flatMap (·.identifiers)).Nodup := by
  rw [List.flatMap_congr hnames, ← List.map_eq_flatMap]
  exact (locateVaryings_eq_ok h List.nodup_nil).2

variable {i}

/-- Where no set repeats a field or a texture, only the names of blocks can repeat in a source of
resources. -/
theorem nodup_resourceSources (hfields : ∀ s ∈ i.sets, s.fieldNames.Nodup)
    (htextures : ∀ s ∈ i.sets, s.textureNames.Nodup) :
    (∀ names ∈ i.resourceSources, names.Nodup) ↔ i.blockNames.Nodup := by
  refine ⟨fun h => h _ List.mem_cons_self, fun hblocks names hnames => ?_⟩
  simp only [resourceSources, List.mem_cons, List.mem_append, List.mem_map] at hnames
  rcases hnames with rfl | ⟨s, hs, rfl⟩ | ⟨s, hs, rfl⟩ | ⟨s, hs, rfl⟩
  · exact hblocks
  · exact hfields s hs
  · exact htextures s hs
  · exact ResourceSet.nodup_derivedNames (htextures s hs)

end Interface

/-- Where no tier uses a name twice, the block of a stage declares every identifier once exactly if its
sources have none in common, and neither the lines of varyings and outputs nor the names of blocks
repeat one.  An object has no uniform and no texture of a tier, but for the stand-in of an empty
buffer.  The texts of the program have the lines of the blocks, each of which declares the identifiers
of its item. -/
theorem Program.nodup_identifiers {d : Definition} {o : Surroundings} {p : Program}
    (hnames : ∀ t ∈ o.tiers, t.names.Nodup) (h : build .explicitBinding d o = .ok p) :
    ∃ s, LinkedStages.ofDefinition d o = .ok s ∧ p = s.program d.name .explicitBinding ∧
      s.interface.tiers = o.tiers ∧
      ((BlockItem.blockIdentifiers (s.interface.vertexBlock .explicitBinding)).Nodup ↔
        (s.interface.vertexVaryings.flatMap (·.identifiers)).Nodup ∧
          s.interface.blockNames.Nodup ∧ s.interface.vertexSources.Pairwise List.Disjoint) ∧
      ((BlockItem.blockIdentifiers (s.interface.fragmentBlock .explicitBinding)).Nodup ↔
        (s.interface.fragmentVaryings.flatMap (·.identifiers)).Nodup ∧
          (s.interface.outputs.flatMap (Glsl.declaredNames ·.decl.line)).Nodup ∧
          s.interface.blockNames.Nodup ∧ s.interface.fragmentSources.Pairwise List.Disjoint) ∧
      ((∀ v ∈ s.interface.vertexVaryings, v.identifiers = [v.decl.name]) →
        (s.interface.vertexVaryings.flatMap (·.identifiers)).Nodup) ∧
      (∀ t ∈ o.tiers,
        (∀ name ∈ t.fieldNames, name ∈ s.interface.layout.resources.fieldNames →
          name = Std140.placeholderName) ∧
        t.textureNames.Disjoint s.interface.layout.resources.textureNames) ∧
      s.vertex.Holds (s.interface.vertexBlock .explicitBinding) p.vertex ∧
      s.fragment.Holds (s.interface.fragmentBlock .explicitBinding) p.fragment ∧
      ∀ item : BlockItem, BlockItem.LineDeclares item.text item.identifiers := by
  obtain ⟨s, hs, rfl⟩ := exists_of_build_eq_ok h
  obtain ⟨outs, hlinks⟩ := LinkedStages.exists_links hs
  have hmerged := Glsl.Uniform.nodup_merge hlinks.uniforms
  have hsets : ∀ t ∈ s.interface.sets, t.fieldNames.Nodup ∧ t.textureNames.Nodup := by
    intro t ht
    rw [Interface.sets, hlinks.tiers] at ht
    rcases List.mem_append.1 ht with ht | ht
    · exact ⟨(hnames t ht).of_append_left, (hnames t ht).of_append_right⟩
    · obtain rfl := List.mem_singleton.1 ht
      exact ⟨ObjectLayout.nodup_fieldNames hlinks.layout hmerged,
        ObjectLayout.nodup_textureNames hlinks.layout hmerged⟩
  have hresources := Interface.nodup_resourceSources (fun t ht => (hsets t ht).1)
    fun t ht => (hsets t ht).2
  have hattributes := Interface.nodup_attributeNames hlinks.attributes
  refine ⟨s, hs, rfl, hlinks.tiers, ?_, ?_,
    Interface.nodup_varyingIdentifiers hlinks.vertexVaryings, fun t ht => ⟨fun name hname hown =>
    ObjectLayout.eq_placeholderName_of_mem_fieldNames hlinks.layout ht hname hown,
    ObjectLayout.disjoint_textureNames hlinks.layout ht⟩, s.holds_vertex d.name .explicitBinding,
    s.holds_fragment d.name .explicitBinding, BlockItem.lineDeclares_text⟩
  · rw [(Interface.blockIdentifiers_vertexBlock _).nodup_iff, List.nodup_flatten,
      Interface.vertexSources, List.forall_mem_cons, List.forall_mem_cons, List.forall_mem_cons,
      hresources]
    simp only [hattributes, Interface.nodup_privateNames hattributes, true_and, and_assoc]
  · rw [(Interface.blockIdentifiers_fragmentBlock _).nodup_iff, List.nodup_flatten,
      Interface.fragmentSources, List.forall_mem_cons, List.forall_mem_cons, hresources]
    simp only [and_assoc]

/-- An attribute with integer data, a varying, an output and an array of textures. -/
def Definition.layered : Definition where
  name := "layered"
  vertex := "attribute vec4 bones;\nvarying vec2 uv;\nuniform mat4 model;\nvoid main() {}\n"
  fragment := "varying vec2 uv;\nuniform sampler2DArray layers;\nout vec4 color;\n"
  attributes := .ofList [("bones", .blendIndices)]

/-- A view with a buffer, and bones that are bytes. -/
def Surroundings.bones : Surroundings where
  tiers := [.of .view (some (.ofFields [⟨"time", .scalar .float, 0⟩])) []]
  elements := .ofList [(.blendIndices, ⟨.uint8, false, false⟩)]

theorem Program.nodup_identifiers_layered :
    (∀ t ∈ Surroundings.bones.tiers, t.names.Nodup) ∧
      ∃ s p, LinkedStages.ofDefinition .layered .bones = .ok s ∧
        build .explicitBinding .layered .bones = .ok p ∧
        BlockItem.blockIdentifiers (s.interface.vertexBlock .explicitBinding) =
          ["_private_bones", "bones", "uv", "ub_view", "time", "ub_object_ub", "model",
            "layers_texture", "layers_sampler", "layers"] ∧
        s.interface.vertexSources.Pairwise List.Disjoint := by
  have hnames : ∀ t ∈ Surroundings.bones.tiers, t.names.Nodup := by decide +kernel
  obtain ⟨s, hs, hids⟩ := map_eq_ok.1 (show (fun s => BlockItem.blockIdentifiers
      (s.interface.vertexBlock .explicitBinding)) <$> LinkedStages.ofDefinition .layered .bones =
        .ok ["_private_bones", "bones", "uv", "ub_view", "time", "ub_object_ub", "model",
          "layers_texture", "layers_sampler", "layers"] by
    decide +kernel)
  obtain ⟨s', hs', -, -, hvertex, -⟩ := nodup_identifiers hnames (build_eq_ok hs)
  obtain rfl : s = s' := Except.ok.inj (hs.symm.trans hs')
  exact ⟨hnames, s, _, hs, build_eq_ok hs, hids, (hvertex.1 (hids ▸ by decide)).2.2⟩

/-- A view and a material that both have the position of the view. -/
def Surroundings.positions : Surroundings where
  tiers :=
    [.of .view (some (.ofFields [⟨"matrix_viewProjection", .matrix .four, 0⟩,
        ⟨"view_position", .vector .float .three, 0⟩])) [],
      .of .material (some (.ofFields [⟨"material_diffuse", .vector .float .three, 0⟩,
        ⟨"view_position", .vector .float .three, 0⟩])) []]
  elements := .empty

/-- A name of two tiers resolves in the first, and is declared in both. -/
theorem Program.not_nodup_identifiers_positions :
    let d : Definition := ⟨"lit", "uniform vec3 view_position;\nvoid main() {}\n", "", .empty⟩
    (∀ t ∈ Surroundings.positions.tiers, t.names.Nodup) ∧
      ∃ s p, LinkedStages.ofDefinition d .positions = .ok s ∧
        build .explicitBinding d .positions = .ok p ∧ p = s.program d.name .explicitBinding ∧
        ¬ (BlockItem.blockIdentifiers (s.interface.vertexBlock .explicitBinding)).Nodup ∧
        ¬ (BlockItem.blockIdentifiers (s.interface.fragmentBlock .explicitBinding)).Nodup := by
  intro d
  obtain ⟨s, hs, hids⟩ := map_eq_ok.1 (show (fun s =>
      (BlockItem.blockIdentifiers (s.interface.vertexBlock .explicitBinding),
        BlockItem.blockIdentifiers (s.interface.fragmentBlock .explicitBinding))) <$>
      LinkedStages.ofDefinition d .positions =
        .ok (["ub_view", "matrix_viewProjection", "view_position", "ub_material",
            "material_diffuse", "view_position", "ub_object_ub", "_unused_float_uniform"],
          ["ub_view", "matrix_viewProjection", "view_position", "ub_material",
            "material_diffuse", "view_position", "ub_object_ub", "_unused_float_uniform"]) by
    decide +kernel)
  obtain ⟨hvertex, hfragment⟩ := Prod.mk.inj hids
  refine ⟨by decide +kernel, s, _, hs, build_eq_ok hs, rfl, ?_, ?_⟩
  · rw [hvertex]
    decide
  · rw [hfragment]
    decide

end ForwardShading
