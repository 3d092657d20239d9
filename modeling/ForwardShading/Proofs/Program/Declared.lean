import ForwardShading.Proofs.Glsl.Declaration
import ForwardShading.Proofs.Glsl.Dissection
import ForwardShading.Proofs.Program.Dialects
import ForwardShading.Proofs.Text.Numeral

/-!
# How the uniforms of an object are declared

Loose uniforms are declared by their lines.  With explicit bindings, a uniform that no tier binds is
declared by what was read off its line: its name and its type, and in a buffer its number of elements,
where that is not zero.  The declaration of a texture has no room for a number of elements, so a
sampler loses the one that its line writes (`Program.declares_own`).
-/

namespace ForwardShading

open Glsl (Uniform SamplerType)

/-! ## Written declarations -/

namespace BlockItem

/-- The brackets with a number of elements, if there is one. -/
def sizeText : Option UInt32 → String
  | none => ""
  | some n => "[" ++ toString n.toNat ++ "]"

/-- The declaration of a name with an array size, if there is one. -/
def declarationText (type name : String) (size : Option UInt32) : String :=
  type ++ " " ++ name ++ sizeText size ++ ";\n"

theorem sizeText_some_ne (n : UInt32) : sizeText (some n) ≠ "" := by
  intro h
  have hlength := congrArg (·.toList.length) h
  simp [sizeText] at hlength

theorem sizeText_inj {size size' : Option UInt32} (h : sizeText size = sizeText size') :
    size = size' := by
  cases size with
  | none =>
    cases size' with
    | none => rfl
    | some n => exact absurd h.symm (sizeText_some_ne n)
  | some n =>
    cases size' with
    | none => exact absurd h (sizeText_some_ne n)
    | some n' =>
      have hdigits := (String.append_right_inj "[").1 ((String.append_left_inj "]").1 h)
      rw [UInt32.toNat_inj.1 (Text.toString_inj.1 hdigits)]

theorem declarationText_inj {type name : String} {size size' : Option UInt32}
    (h : declarationText type name size = declarationText type name size') : size = size' := by
  rw [declarationText, declarationText, String.append_left_inj, String.append_right_inj] at h
  exact sizeText_inj h

theorem fieldText_eq (f : Std140.Field) :
    fieldText f =
      "    " ++ declarationText f.type.name f.name (if f.count = 0 then none else some f.count) := by
  by_cases hcount : f.count = 0 <;>
    simp [fieldText, declarationText, sizeText, hcount, String.append_assoc]

theorem text_texture_declaration (tier : Tier) (slot : Nat) (type name : String) :
    (texture tier slot type name).text =
      atSlot tier slot ++ "uniform " ++ declarationText type name none := by
  show atSlot tier slot ++ "uniform " ++ type ++ " " ++ name ++ ";\n" = _
  simp only [declarationText, sizeText, String.append_assoc, String.empty_append]

/-- Holds of a block that declares a uniform as a field of a buffer, with a number of elements. -/
def DeclaresField (items : List BlockItem) (u : Uniform) (size : Option UInt32) : Prop :=
  ∃ tier fields, uniformBlock tier fields ∈ items ∧ ∃ f ∈ fields, f.name = u.name ∧
    fieldText f = "    " ++ declarationText u.typeName u.name size

/-- Holds of a block that declares a uniform as a texture of the object beside its sampler, with a number
of elements.  The name of an array of textures stands for the two of them. -/
def DeclaresTexture (items : List BlockItem) (u : Uniform) (t : SamplerType) (size : Option UInt32) :
    Prop :=
  ∃ slot,
    let b : BoundTexture := ⟨u.texture t, slot⟩
    let item := texture .object slot b.textureType b.variableName
    item ∈ items ∧ sampler .object (slot + 1) b.samplerName ∈ items ∧
      (t.dimension = .flatArray →
        combination u.name (b.kind.typePrefix ++ t.dimension.samplerType) b.variableName
          b.samplerName ∈ items) ∧
      item.text = atSlot .object slot ++ "uniform " ++
        declarationText b.textureType b.variableName size

/-- Holds of a block that declares a uniform with a number of elements. -/
def Declares (items : List BlockItem) (u : Uniform) (size : Option UInt32) : Prop :=
  match u.sampler with
  | none => DeclaresField items u size
  | some t => DeclaresTexture items u t size

variable {items items' : List BlockItem} {u : Uniform} {t : SamplerType} {size : Option UInt32}

theorem declares_of_numeric (h : u.sampler = none) :
    Declares items u size ↔ DeclaresField items u size := by
  rw [Declares, h]

theorem declares_of_sampler (h : u.sampler = some t) :
    Declares items u size ↔ DeclaresTexture items u t size := by
  rw [Declares, h]

/-- Only resources declare uniforms. -/
theorem declares_congr (h : ∀ item : BlockItem, item.isResource = true → (item ∈ items ↔ item ∈ items')) :
    Declares items u size ↔ Declares items' u size := by
  cases ht : u.sampler with
  | none => simp only [declares_of_numeric ht, DeclaresField, h (uniformBlock _ _) rfl]
  | some t =>
    simp only [declares_of_sampler ht, DeclaresTexture, h (texture _ _ _ _) rfl,
      h (sampler _ _ _) rfl, h (combination _ _ _ _) rfl]

/-- A texture is declared without a number of elements. -/
theorem eq_none_of_declares (ht : u.sampler = some t) (h : Declares items u size) : size = none := by
  obtain ⟨slot, -, -, -, htext⟩ := (declares_of_sampler ht).1 h
  rw [text_texture_declaration] at htext
  exact (declarationText_inj ((String.append_right_inj _).1 htext)).symm

end BlockItem

/-! ## Uniforms of an object -/

namespace Glsl.Uniform

/-- The number of elements that a uniform of an object is declared with. -/
def keptSize (u : Uniform) : Option UInt32 :=
  if u.sampler.isSome ∨ u.arraySize = 0 then none else some u.arraySize

end Glsl.Uniform

theorem BlockItem.fieldText_of_field {u : Uniform} {f : Std140.Field} (hn : u.sampler = none)
    (h : u.field = .ok f) :
    fieldText f = "    " ++ declarationText u.typeName u.name u.keptSize := by
  obtain ⟨hname, htype, hcount⟩ := Uniform.eq_of_field h
  rw [fieldText_eq, hname, htype, hcount, Uniform.keptSize, hn]
  simp

namespace Interface

open BlockItem

variable {i : Interface} {u : Uniform} {size : Option UInt32}

/-- What no tier binds is declared with the layout of the object. -/
theorem declares_keptSize (h : ObjectLayout.allocate i.tiers i.uniforms = .ok i.layout)
    (hu : u ∈ i.uniforms) (hown : u.isProvided i.tiers = false) :
    Declares (ofResources .explicitBinding i) u u.keptSize := by
  cases ht : u.sampler with
  | none =>
    obtain ⟨f, hf, hfield⟩ := ObjectLayout.mem_fields_of_allocate h hu hown ht
    exact (declares_of_numeric ht).2 ⟨_, _,
      mem_ofResources.2 (.inl ⟨.objectUniforms, _, mem_buffers.2 (.inr ⟨rfl, rfl⟩), rfl⟩), f, hf,
      (Uniform.eq_of_field hfield).1, fieldText_of_field ht hfield⟩
  | some t =>
    obtain ⟨slot, hb⟩ := ObjectLayout.mem_textures_of_allocate h hu hown ht
    have hmem : ∀ item, item ∈ ofTexture .object ⟨u.texture t, slot⟩ →
        item ∈ ofResources .explicitBinding i := fun item hitem =>
      mem_ofResources.2 (.inr ⟨.object, _, mem_groups.2 (.inr ⟨rfl, rfl⟩), _, hb, hitem⟩)
    refine (declares_of_sampler ht).2 ⟨slot, hmem _ (mem_ofTexture.2 (.inl rfl)),
      hmem _ (mem_ofTexture.2 (.inr (.inl ⟨rfl, rfl⟩))),
      fun harray => hmem _ (mem_ofTexture.2 (.inr (.inr ⟨harray, rfl⟩))), ?_⟩
    rw [text_texture_declaration, Uniform.keptSize, ht]
    rfl

/-- No tier has a field with the name of a uniform that none binds, and the object has one. -/
theorem eq_keptSize_of_declares (h : ObjectLayout.allocate i.tiers i.uniforms = .ok i.layout)
    (hnodup : (i.uniforms.map (·.name)).Nodup) (hu : u ∈ i.uniforms)
    (hown : u.isProvided i.tiers = false)
    (hdeclares : Declares (ofResources .explicitBinding i) u size) : size = u.keptSize := by
  cases ht : u.sampler with
  | some t =>
    rw [eq_none_of_declares ht hdeclares, Uniform.keptSize, ht]
    rfl
  | none =>
    obtain ⟨tier, fields, hblock, f, hf, hname, htext⟩ := (declares_of_numeric ht).1 hdeclares
    rcases mem_ofResources.1 hblock with ⟨tier', l, hl, heq⟩ | ⟨tier', g, -, t, -, hitem⟩
    · cases heq
      rcases mem_buffers.1 hl with ⟨s, hs, hsl, -⟩ | ⟨-, rfl⟩
      · have hmem : u.name ∈ s.fieldNames := by
          obtain ⟨placed, hplaced, rfl⟩ := List.mem_map.1 hf
          simpa [ResourceSet.fieldNames, hsl] using ⟨placed, hplaced, hname⟩
        have hresolves := ResourceTiers.isSome_resolveUniform.2 ⟨s, hs, hmem⟩
        rw [← Uniform.isProvided_of_numeric ht, hown] at hresolves
        cases hresolves
      · obtain ⟨f', hf', hfield⟩ := ObjectLayout.mem_fields_of_allocate h hu hown ht
        have hnames : ((i.layout.uniforms.fields.map (·.toField)).map (·.name)).Nodup := by
          rw [List.map_map]
          exact (ObjectLayout.sound_allocate h hnodup).names
        obtain rfl := List.inj_on_of_nodup_map hnames hf hf'
          (hname.trans (Uniform.eq_of_field hfield).1.symm)
        rw [fieldText_of_field ht hfield] at htext
        exact (declarationText_inj ((String.append_right_inj _).1 htext)).symm
    · rcases mem_ofTexture.1 hitem with heq | ⟨-, heq⟩ | ⟨-, heq⟩ <;> cases heq

end Interface

/-! ## Lines of uniforms -/

theorem Glsl.Stage.exists_parse_of_mem_uniforms {source : String} {stage : Stage} {u : Uniform}
    (h : ofSource source = .ok stage) (hu : u ∈ stage.uniforms) :
    ∃ text, Uniform.parse text = .ok u := by
  obtain ⟨text, -, hparse⟩ := exists_of_mem_mapM (Dissection.accounts_ofSource h).uniforms hu
  exact ⟨text, hparse⟩

/-- The uniforms of linked stages were read off lines of either. -/
theorem LinkedStages.exists_parse_of_mem_uniforms {d : Definition} {o : Surroundings}
    {s : LinkedStages} {u : Uniform} (h : ofDefinition d o = .ok s) (hu : u ∈ s.interface.uniforms) :
    ∃ text, Uniform.parse text = .ok u := by
  obtain ⟨outs, hlinks⟩ := exists_links h
  obtain ⟨hvertex, hfragment, -⟩ := of_ofDefinition h
  rcases Uniform.mem_of_merge hlinks.uniforms hu with hu | hu
  · exact Glsl.Stage.exists_parse_of_mem_uniforms hvertex hu
  · exact Glsl.Stage.exists_parse_of_mem_uniforms hfragment hu

namespace Glsl.Uniform

theorem name_of_sampler {text : List Char} {u : Uniform} {t : SamplerType} (h : parse text = .ok u)
    (ht : u.sampler = some t) : t.name = u.typeName := by
  unfold parse at h
  split at h
  · cases h
  · obtain ⟨typed, -, h⟩ := bind_eq_ok.1 h
    obtain ⟨sampler, hsampler, h⟩ := bind_eq_ok.1 h
    cases h
    unfold samplerOf at hsampler
    split at hsampler
    · split at hsampler
      · rename_i hname
        cases hsampler
        cases ht
        exact (SamplerType.mem_all_of_ofName? hname).2
      · cases hsampler
    · cases hsampler
      cases ht

/-- The number of elements that a line writes is kept for a numeric uniform, unless it is zero. -/
theorem keptSize_eq_iff {u : Uniform} {written : Option UInt32} (h : u.arraySize = written.getD 0) :
    u.keptSize = written ↔ written = none ∨ u.sampler = none ∧ written ≠ some 0 := by
  unfold keptSize
  rw [h]
  cases u.sampler with
  | some t => cases written <;> simp
  | none =>
    cases written with
    | none => simp
    | some n => by_cases hn : n = 0 <;> simp [hn]

end Glsl.Uniform

/-- Every uniform that no tier binds is declared in both dialects and both stages, where uniforms are
loose by its line.  With explicit bindings it has its name and its type, and the number of elements
that the line writes exactly if that is none, or not zero and not that of a sampler. -/
theorem Program.declares_own {d : Definition} {o : Surroundings} {p : Program}
    (h : build .explicitBinding d o = .ok p) :
    ∃ s, LinkedStages.ofDefinition d o = .ok s ∧ p = s.program d.name .explicitBinding ∧
      ∀ u ∈ s.interface.uniforms, u.isProvided o.tiers = false →
        (∀ t, u.sampler = some t → t.name = u.typeName) ∧
        .looseUniform u.line ∈ s.interface.vertexBlock .fixedBinding ∧
        .looseUniform u.line ∈ s.interface.fragmentBlock .fixedBinding ∧
        ∃ written, u.Writes written ∧
          ∀ items ∈ [s.interface.vertexBlock .explicitBinding,
              s.interface.fragmentBlock .explicitBinding],
            (∃ size, BlockItem.Declares items u size) ∧
            (BlockItem.Declares items u written ↔
              written = none ∨ u.sampler = none ∧ written ≠ some 0) := by
  obtain ⟨s, hs, rfl⟩ := exists_of_build_eq_ok h
  obtain ⟨outs, hlinks⟩ := LinkedStages.exists_links hs
  have hlayout := hlinks.layout
  rw [← hlinks.tiers] at hlayout
  refine ⟨s, hs, rfl, fun u hu hown => ?_⟩
  rw [← hlinks.tiers] at hown
  obtain ⟨text, hparse⟩ := LinkedStages.exists_parse_of_mem_uniforms hs hu
  obtain ⟨written, hwrites, hsize⟩ := Uniform.exists_writes_of_parse hparse
  have hloose : BlockItem.looseUniform u.line ∈ BlockItem.ofResources .fixedBinding s.interface :=
    List.mem_map.2 ⟨u, hu, rfl⟩
  refine ⟨fun t => Uniform.name_of_sampler hparse, List.mem_append_right _ hloose,
    List.mem_append_right _ hloose, written, hwrites, fun items hitems => ?_⟩
  have hresources : ∀ item : BlockItem, item.isResource = true →
      (item ∈ items ↔ item ∈ BlockItem.ofResources .explicitBinding s.interface) := by
    intro item hitem
    rcases List.mem_cons.1 hitems with rfl | hitems
    · exact (s.interface.mem_blocks_of_isResource hitem).1
    · obtain rfl := List.mem_singleton.1 hitems
      exact (s.interface.mem_blocks_of_isResource hitem).2
  have hkept := Interface.declares_keptSize hlayout hu hown
  simp only [BlockItem.declares_congr hresources, ← Uniform.keptSize_eq_iff hsize]
  exact ⟨⟨_, hkept⟩, fun hdeclares => (Interface.eq_keptSize_of_declares hlayout
    (Uniform.nodup_merge hlinks.uniforms) hu hown hdeclares).symm, fun heq => heq ▸ hkept⟩

theorem Program.declares_own_skinned :
    let d : Definition := ⟨"skinned",
      "uniform mediump vec4 tints[ 4 ];\nuniform usampler2D ids;\nvoid main() {}\n", "", .empty⟩
    let tints : Uniform := ⟨"mediump vec4 tints[ 4 ]", some .medium, "vec4", "tints", 4, none⟩
    let ids : Uniform := ⟨"usampler2D ids", none, "usampler2D", "ids", 0, some ⟨.flat, .unsigned⟩⟩
    ∃ s p, LinkedStages.ofDefinition d ⟨[], .empty⟩ = .ok s ∧
      build .explicitBinding d ⟨[], .empty⟩ = .ok p ∧ s.interface.uniforms = [tints, ids] ∧
      BlockItem.Declares (s.interface.fragmentBlock .explicitBinding) tints (some 4) ∧
      BlockItem.Declares (s.interface.fragmentBlock .explicitBinding) ids none := by
  intro d tints ids
  obtain ⟨s, hs, huniforms⟩ := map_eq_ok.1 (show (·.interface.uniforms) <$>
      LinkedStages.ofDefinition d ⟨[], .empty⟩ = .ok [tints, ids] by
    decide +kernel)
  obtain ⟨s', hs', -, hown⟩ := declares_own (build_eq_ok hs)
  obtain rfl : s = s' := Except.ok.inj (hs.symm.trans hs')
  have htints : tints.Writes (some 4) :=
    ⟨"tints[ 4 ]".toList, ⟨"tints".toList, " 4 ".toList, [], by decide⟩, by decide⟩
  have hids : ids.Writes none := ⟨"ids".toList, ⟨by decide, rfl⟩, by decide⟩
  obtain ⟨-, -, -, written, hwrites, hblocks⟩ := hown tints (by simp [huniforms]) rfl
  obtain rfl := hwrites.unique htints
  obtain ⟨-, -, -, written', hwrites', hblocks'⟩ := hown ids (by simp [huniforms]) rfl
  obtain rfl := hwrites'.unique hids
  exact ⟨s, _, hs, build_eq_ok hs, huniforms, (hblocks _ (by simp)).2.2 (.inr ⟨rfl, by decide⟩),
    (hblocks' _ (by simp)).2.2 (.inl rfl)⟩

/-- An array of samplers is declared as one texture with explicit bindings, and as it is written with
loose uniforms. -/
theorem Program.not_declares_maps :
    let d : Definition := ⟨"arrays", "", "uniform sampler2D maps[4];\nvoid main() {}\n", .empty⟩
    let maps : Uniform := ⟨"sampler2D maps[4]", none, "sampler2D", "maps", 4, some ⟨.flat, .color⟩⟩
    maps.Writes (some 4) ∧ maps.isProvided [] = false ∧
      ∃ s p, LinkedStages.ofDefinition d ⟨[], .empty⟩ = .ok s ∧
        build .explicitBinding d ⟨[], .empty⟩ = .ok p ∧ s.interface.uniforms = [maps] ∧
        .looseUniform maps.line ∈ s.interface.fragmentBlock .fixedBinding ∧
        ¬ BlockItem.Declares (s.interface.fragmentBlock .explicitBinding) maps (some 4) := by
  intro d maps
  obtain ⟨s, hs, huniforms⟩ := map_eq_ok.1 (show (·.interface.uniforms) <$>
      LinkedStages.ofDefinition d ⟨[], .empty⟩ = .ok [maps] by
    decide +kernel)
  have hloose : BlockItem.looseUniform maps.line ∈ BlockItem.ofResources .fixedBinding s.interface :=
    List.mem_map.2 ⟨maps, by simp [huniforms], rfl⟩
  refine ⟨⟨"maps[4]".toList, ⟨"maps".toList, "4".toList, [], by decide⟩, by decide⟩, rfl, s, _, hs,
    build_eq_ok hs, huniforms, List.mem_append_right _ hloose, fun hdeclares => ?_⟩
  cases BlockItem.eq_none_of_declares rfl hdeclares

end ForwardShading
