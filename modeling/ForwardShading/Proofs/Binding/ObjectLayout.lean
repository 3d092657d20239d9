import ForwardShading.Binding.ObjectLayout
import ForwardShading.Proofs.Binding.ResourceSet
import ForwardShading.Proofs.Checked
import ForwardShading.Proofs.Std140.Write

/-!
# The layout of an object's uniforms

Merging keeps each name once (`Glsl.Uniform.merges_of_merge`), so the fields of the buffer that is left
to the object have different names.  Allocation gives such a buffer a sound layout
(`ObjectLayout.sound_allocate`), and leaves to the object no name that a tier has for the same kind of
resource (`ObjectLayout.eq_placeholderName_of_mem_fieldNames`, `ObjectLayout.disjoint_textureNames`).
-/

namespace ForwardShading

open Glsl (Uniform SamplerType)

namespace Glsl.Uniform

/-- `merged` has each name of `past` once, with the line that all uniforms of that name have. -/
structure Merges (past merged : List Uniform) : Prop where
  kept : ∀ u ∈ past, ∃ m ∈ merged, m.name = u.name ∧ m.line = u.line
  only : ∀ m ∈ merged, m ∈ past
  nodup : (merged.map (·.name)).Nodup

namespace Merges

theorem nil : Merges [] [] :=
  ⟨nofun, nofun, List.nodup_nil⟩

variable {past merged : List Uniform} {u first : Uniform}

theorem concat (h : Merges past merged) (hnew : ∀ m ∈ merged, m.name ≠ u.name) :
    Merges (past ++ [u]) (merged ++ [u]) where
  kept w hw := by
    rcases List.mem_append.1 hw with hw | hw
    · obtain ⟨m, hm, hsame⟩ := h.kept w hw
      exact ⟨m, List.mem_append_left _ hm, hsame⟩
    · exact ⟨w, List.mem_append_right _ hw, rfl, rfl⟩
  only m hm := List.mem_append.2 ((List.mem_append.1 hm).imp_left (h.only m))
  nodup := nodup_map_concat h.nodup hnew

theorem skip (h : Merges past merged) (hfirst : first ∈ merged) (hname : first.name = u.name)
    (hline : first.line = u.line) : Merges (past ++ [u]) merged where
  kept w hw := by
    rcases List.mem_append.1 hw with hw | hw
    · exact h.kept w hw
    · rw [List.mem_singleton.1 hw]
      exact ⟨first, hfirst, hname, hline⟩
  only m hm := List.mem_append_left _ (h.only m hm)
  nodup := h.nodup

end Merges

/-- All of the uniforms are in the result, by their names and lines. -/
theorem Merges.of_mergeInto {past merged us rs : List Uniform} (h : Merges past merged)
    (hrs : mergeInto merged us = .ok rs) : Merges (past ++ us) rs := by
  induction us generalizing past merged with
  | nil =>
    cases hrs
    rwa [List.append_nil]
  | cons u us ih =>
    rw [mergeInto] at hrs
    rw [← List.singleton_append, ← List.append_assoc]
    cases hfind : merged.find? (·.name == u.name) with
    | none =>
      rw [hfind] at hrs
      exact ih (h.concat (find?_key_eq_none.1 hfind)) hrs
    | some first =>
      rw [hfind] at hrs
      obtain ⟨hfirst, hname⟩ := (find?_key_eq_some h.nodup).1 hfind
      by_cases hline : first.line = u.line
      · simp only [hline, if_true] at hrs
        exact ih (h.skip hfirst hname hline) hrs
      · simp only [hline, if_false] at hrs
        cases hrs

theorem merges_of_merge {vertex fragment us : List Uniform} (h : merge vertex fragment = .ok us) :
    Merges (vertex ++ fragment) us :=
  Merges.nil.of_mergeInto h

theorem nodup_merge {vertex fragment us : List Uniform} (h : merge vertex fragment = .ok us) :
    (us.map (·.name)).Nodup :=
  (merges_of_merge h).nodup

/-- Merging adds nothing of its own. -/
theorem mem_of_merge {vertex fragment us : List Uniform} {u : Uniform}
    (h : merge vertex fragment = .ok us) (hu : u ∈ us) : u ∈ vertex ∨ u ∈ fragment :=
  List.mem_append.1 ((merges_of_merge h).only u hu)

theorem eq_of_field {u : Uniform} {f : Std140.Field} (h : u.field = .ok f) :
    f.name = u.name ∧ f.type.name = u.typeName ∧ f.count = u.arraySize := by
  unfold field at h
  split at h
  · rename_i type htype
    cases h
    exact ⟨rfl, NumericType.ofName?_eq_some.1 htype, rfl⟩
  · cases h

theorem isProvided_of_numeric {u : Uniform} (h : u.sampler = none) (tiers : ResourceTiers) :
    u.isProvided tiers = (tiers.resolveUniform u.name).isSome := by
  rw [isProvided, h]

theorem isProvided_of_sampler {u : Uniform} {t : SamplerType} (h : u.sampler = some t)
    (tiers : ResourceTiers) : u.isProvided tiers = (tiers.resolveTexture u.name).isSome := by
  rw [isProvided, h]

end Glsl.Uniform

namespace BindGroup

theorem map_toTexture_assign (first : Nat) (ts : List Texture) :
    (assign first ts).map (·.toTexture) = ts := by
  induction ts generalizing first with
  | nil => rfl
  | cons t ts ih => rw [assign, List.map_cons, ih]

end BindGroup

namespace ObjectLayout

/-- Where every uniform has a field, the fields have the uniforms' names. -/
theorem names_of_mapM_field {us : List Uniform} {fs : List Std140.Field}
    (h : us.mapM (·.field) = .ok fs) : fs.map (·.name) = us.map (·.name) := by
  have hfields : List.Forall₂ (fun u f => u.name = f.name) us fs :=
    (mapM_eq_ok.1 h).imp fun _ _ hf => (Glsl.Uniform.eq_of_field hf).1.symm
  have hnames : List.Forall₂ Eq (us.map (·.name)) (fs.map (·.name)) :=
    List.forall₂_map_left_iff.2 (List.forall₂_map_right_iff.2 hfields)
  rw [List.forall₂_eq_eq_eq] at hnames
  exact hnames.symm

/-- What allocation makes of the uniforms that no tier binds. -/
theorem exists_fields_of_allocate {tiers : ResourceTiers} {us : List Uniform} {l : ObjectLayout}
    (h : allocate tiers us = .ok l) :
    ∃ fields, fieldsOf (us.filter (!·.isProvided tiers)) = .ok fields ∧
      Std140.Layout.ofFieldsWithin maxBufferSize fields = .ok l.uniforms ∧
      l.textures = .ofTextures 0 (texturesOf (us.filter (!·.isProvided tiers))) := by
  obtain ⟨fields, hfields, h⟩ := bind_eq_ok.1 h
  cases hl : Std140.Layout.ofFieldsWithin maxBufferSize fields with
  | error name =>
    rw [hl] at h
    cases h
  | ok uniforms =>
    rw [hl] at h
    cases h
    exact ⟨fields, hfields, hl, rfl⟩

theorem allocate_eq_ok {tiers : ResourceTiers} {us : List Uniform} {l : ObjectLayout} :
    allocate tiers us = .ok l ↔
      ∃ fields, fieldsOf (us.filter (!·.isProvided tiers)) = .ok fields ∧
        Std140.Layout.ofFieldsWithin maxBufferSize fields = .ok l.uniforms ∧
        l.textures = .ofTextures 0 (texturesOf (us.filter (!·.isProvided tiers))) := by
  refine ⟨exists_fields_of_allocate, ?_⟩
  rintro ⟨fields, hfields, huniforms, htextures⟩
  rw [allocate, hfields]
  simp only [bind, Except.bind, huniforms, ← htextures]
  rfl

theorem sound_allocate {tiers : ResourceTiers} {us : List Uniform} {l : ObjectLayout}
    (h : allocate tiers us = .ok l) (hn : (us.map (·.name)).Nodup) : l.uniforms.Sound := by
  obtain ⟨fields, hfields, hlayout, -⟩ := exists_fields_of_allocate h
  refine Std140.Layout.sound_ofFieldsWithin ?_ hlayout
  rw [names_of_mapM_field hfields]
  exact (hn.sublist (List.filter_sublist.map _)).sublist (List.filter_sublist.map _)

/-! ## What is left to the object -/

theorem mem_fields_of_allocate {tiers : ResourceTiers} {us : List Uniform} {l : ObjectLayout}
    {u : Uniform} (h : allocate tiers us = .ok l) (hu : u ∈ us) (hown : u.isProvided tiers = false)
    (hn : u.sampler = none) : ∃ f ∈ l.uniforms.fields.map (·.toField), u.field = .ok f := by
  obtain ⟨fields, hfields, hlayout, -⟩ := exists_fields_of_allocate h
  have hmem : u ∈ (us.filter (!·.isProvided tiers)).filter (·.sampler.isNone) := by
    simp [hu, hown, hn]
  obtain ⟨f, hf, hfield⟩ := exists_mem_of_mapM hfields hmem
  rw [(Std140.Layout.between_ofFieldsWithin hlayout).1]
  cases fields with
  | nil => cases hf
  | cons g gs => exact ⟨f, hf, hfield⟩

theorem mem_textures_of_allocate {tiers : ResourceTiers} {us : List Uniform} {l : ObjectLayout}
    {u : Uniform} {t : SamplerType} (h : allocate tiers us = .ok l) (hu : u ∈ us)
    (hown : u.isProvided tiers = false) (ht : u.sampler = some t) :
    ∃ slot, ⟨u.texture t, slot⟩ ∈ l.textures.textures := by
  obtain ⟨fields, -, -, htextures⟩ := exists_fields_of_allocate h
  have hmem : u.texture t ∈ texturesOf (us.filter (!·.isProvided tiers)) :=
    List.mem_filterMap.2 ⟨u, by simp [hu, hown], by rw [ht]; rfl⟩
  rw [← BindGroup.map_toTexture_assign 0 (texturesOf _)] at hmem
  obtain ⟨b, hb, hbound⟩ := List.mem_map.1 hmem
  exact ⟨b.slot, by rw [htextures, ← hbound]; exact hb⟩

/-! ## Names -/

/-- The resources that are left to the object, as a set. -/
def resources (l : ObjectLayout) : ResourceSet :=
  ⟨.object, some l.uniforms, some l.textures⟩

theorem map_name_texturesOf (us : List Uniform) :
    (texturesOf us).map (·.name) = (us.filter (·.sampler.isSome)).map (·.name) := by
  induction us with
  | nil => rfl
  | cons u us ih =>
    cases hu : u.sampler with
    | none => simpa [texturesOf, hu] using ih
    | some t => simpa [texturesOf, hu, Uniform.texture] using ih

variable {tiers : ResourceTiers} {us : List Uniform} {l : ObjectLayout} {s : ResourceSet}
  {name : String}

theorem nodup_fieldNames (h : allocate tiers us = .ok l) (hn : (us.map (·.name)).Nodup) :
    l.resources.fieldNames.Nodup := by
  simpa [resources, ResourceSet.fieldNames] using (sound_allocate h hn).names

theorem textureNames_of_allocate (h : allocate tiers us = .ok l) :
    l.resources.textureNames =
      ((us.filter (!·.isProvided tiers)).filter (·.sampler.isSome)).map (·.name) := by
  obtain ⟨fields, -, -, htextures⟩ := exists_fields_of_allocate h
  rw [← map_name_texturesOf, ← BindGroup.map_toTexture_assign 0 (texturesOf _), List.map_map]
  simp [resources, ResourceSet.textureNames, ResourceSet.boundTextures, htextures,
    BindGroup.ofTextures]

theorem nodup_textureNames (h : allocate tiers us = .ok l) (hn : (us.map (·.name)).Nodup) :
    l.resources.textureNames.Nodup := by
  rw [textureNames_of_allocate h]
  exact (hn.sublist (List.filter_sublist.map _)).sublist (List.filter_sublist.map _)

/-- The fields that are left to the object have names of uniforms that no tier binds.  There is always
one. -/
theorem mem_fieldNames_of_allocate (h : allocate tiers us = .ok l)
    (hname : name ∈ l.resources.fieldNames) :
    name = Std140.placeholderName ∨
      ∃ u ∈ us, u.isProvided tiers = false ∧ u.sampler = none ∧ u.name = name := by
  obtain ⟨fields, hfields, hlayout, -⟩ := exists_fields_of_allocate h
  have hnames : l.resources.fieldNames = (Std140.orPlaceholder fields).map (·.name) := by
    rw [← (Std140.Layout.between_ofFieldsWithin hlayout).1, List.map_map]
    exact List.append_nil _
  rw [hnames] at hname
  cases fields with
  | nil => exact .inl (List.mem_singleton.1 hname)
  | cons f fs =>
    have hown : name ∈ ((us.filter (!·.isProvided tiers)).filter (·.sampler.isNone)).map (·.name) := by
      rw [← names_of_mapM_field hfields]
      exact hname
    obtain ⟨u, hu, rfl⟩ := List.mem_map.1 hown
    simp only [List.mem_filter, Bool.not_eq_true', Option.isNone_iff_eq_none] at hu
    exact .inr ⟨u, hu.1.1, hu.1.2, hu.2, rfl⟩

theorem eq_placeholderName_of_mem_fieldNames (h : allocate tiers us = .ok l) (hs : s ∈ tiers)
    (hname : name ∈ s.fieldNames) (hown : name ∈ l.resources.fieldNames) :
    name = Std140.placeholderName := by
  rcases mem_fieldNames_of_allocate h hown with hplaceholder | ⟨u, -, hprovided, hu, rfl⟩
  · exact hplaceholder
  · have hresolves := ResourceTiers.isSome_resolveUniform.2 ⟨s, hs, hname⟩
    rw [← Uniform.isProvided_of_numeric hu, hprovided] at hresolves
    cases hresolves

theorem disjoint_textureNames (h : allocate tiers us = .ok l) (hs : s ∈ tiers) :
    s.textureNames.Disjoint l.resources.textureNames := by
  intro name hname hown
  rw [textureNames_of_allocate h] at hown
  obtain ⟨u, hu, rfl⟩ := List.mem_map.1 hown
  simp only [List.mem_filter, Bool.not_eq_true'] at hu
  obtain ⟨t, ht⟩ := Option.isSome_iff_exists.1 hu.2
  have hresolves := ResourceTiers.isSome_resolveTexture.2 ⟨s, hs, hname⟩
  rw [← Uniform.isProvided_of_sampler ht, hu.1.2] at hresolves
  cases hresolves

end ObjectLayout

end ForwardShading
