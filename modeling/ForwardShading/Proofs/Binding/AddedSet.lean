import ForwardShading.Proofs.Binding.Resolution
import ForwardShading.Proofs.Std140.Removal

/-!
# Adding a resource set

A set behind the others takes uniforms from the object and gives it none.  What the tiers already had
stays bound as it was (`ResourceTiers.resolveUniform_concat`, `ResourceTiers.resolveTexture_concat`),
and the rest keeps its order and moves to the front, in the buffer (`Std140.sublist_place`) and among
the slots (`BindGroup.sublist_assign`).  So allocation that succeeds goes on to succeed with a further
set (`ObjectLayout.allocate_concat`).
-/

namespace ForwardShading

open Glsl (Uniform SamplerType)

namespace ResourceTiers

variable {tiers : ResourceTiers} {name : String} {b : Binding}

theorem resolveUniform_concat (h : tiers.resolveUniform name = some b) (s : ResourceSet) :
    resolveUniform (tiers ++ [s]) name = some b := by
  rw [resolveUniform, List.findSome?_append, ← resolveUniform, h]
  rfl

theorem resolveTexture_concat (h : tiers.resolveTexture name = some b) (s : ResourceSet) :
    resolveTexture (tiers ++ [s]) name = some b := by
  rw [resolveTexture, List.findSome?_append, ← resolveTexture, h]
  rfl

end ResourceTiers

theorem Glsl.Uniform.isProvided_concat {tiers : ResourceTiers} {u : Uniform}
    (h : u.isProvided tiers = true) (s : ResourceSet) : u.isProvided (tiers ++ [s]) = true := by
  cases hu : u.sampler with
  | some t =>
    rw [isProvided_of_sampler hu, Option.isSome_iff_exists] at h ⊢
    obtain ⟨b, hb⟩ := h
    exact ⟨b, ResourceTiers.resolveTexture_concat hb s⟩
  | none =>
    rw [isProvided_of_numeric hu, Option.isSome_iff_exists] at h ⊢
    obtain ⟨b, hb⟩ := h
    exact ⟨b, ResourceTiers.resolveUniform_concat hb s⟩

/-- The same texture, and not behind where it is in the other group. -/
def BoundTexture.NotBehind (t u : BoundTexture) : Prop :=
  t.toTexture = u.toTexture ∧ t.slot ≤ u.slot

theorem BindGroup.sublist_assign {ts ts' : List Texture} {first first' : Nat} (hts : ts'.Sublist ts)
    (hfirst : first' ≤ first) :
    List.SublistForall₂ BoundTexture.NotBehind (assign first' ts') (assign first ts) := by
  induction hts generalizing first first' with
  | slnil => exact .nil
  | cons t _ ih => exact .cons_right (ih (Nat.le_add_right_of_le hfirst))
  | cons_cons t _ ih => exact .cons ⟨rfl, hfirst⟩ (ih (Nat.add_le_add_right hfirst _))

namespace ObjectLayout

variable {tiers : ResourceTiers} {us : List Uniform} {l : ObjectLayout}

/-- What is left to the object with a further set was left to it before. -/
theorem sublist_own (tiers : ResourceTiers) (s : ResourceSet) (us : List Uniform) :
    (us.filter (!·.isProvided (tiers ++ [s]))).Sublist (us.filter (!·.isProvided tiers)) := by
  refine List.monotone_filter_right us fun u hu => ?_
  cases hold : u.isProvided tiers with
  | false => rfl
  | true =>
    rw [Uniform.isProvided_concat hold s] at hu
    cases hu

/-- A further set takes entries from the object and leaves the others in their order, none of them
behind its old place.  What the tiers had stays bound as it was. -/
theorem allocate_concat (h : allocate tiers us = .ok l) (s : ResourceSet) :
    ∃ l', allocate (tiers ++ [s]) us = .ok l' ∧
      (∀ name b, tiers.resolveUniform name = some b →
        ResourceTiers.resolveUniform (tiers ++ [s]) name = some b) ∧
      (∀ name b, tiers.resolveTexture name = some b →
        ResourceTiers.resolveTexture (tiers ++ [s]) name = some b) ∧
      (if ownNumerics (tiers ++ [s]) us = [] then
        l'.uniforms.fields.map (·.toField) = [Std140.placeholder]
      else List.SublistForall₂ Std140.PlacedField.NotBehind l'.uniforms.fields l.uniforms.fields) ∧
      List.SublistForall₂ BoundTexture.NotBehind l'.textures.textures l.textures.textures ∧
      l'.uniforms.byteSize ≤ l.uniforms.byteSize := by
  obtain ⟨fields, hfields, huniforms, htextures⟩ := allocate_eq_ok.1 h
  have hown := sublist_own tiers s us
  obtain ⟨fields', hfields', hsub⟩ := exists_sublist_of_mapM (hown.filter _) hfields
  obtain ⟨uniforms', huniforms', hsize, hplaces⟩ :=
    Std140.Layout.sublist_ofFieldsWithin hsub huniforms
  refine ⟨⟨uniforms', .ofTextures 0 (texturesOf (us.filter (!·.isProvided (tiers ++ [s]))))⟩,
    allocate_eq_ok.2 ⟨fields', hfields', huniforms', rfl⟩,
    fun name b hb => ResourceTiers.resolveUniform_concat hb s,
    fun name b hb => ResourceTiers.resolveTexture_concat hb s, ?_, ?_, hsize⟩
  · rw [ownNumerics_eq]
    split
    · rename_i hnone
      rw [hnone] at hfields'
      cases hfields'
      exact (Std140.Layout.between_ofFieldsWithin huniforms').1
    · rename_i hsome
      refine hplaces fun hnone => hsome ?_
      rw [hnone] at hfields'
      exact List.forall₂_nil_right_iff.1 (mapM_eq_ok.1 hfields')
  · rw [htextures]
    exact BindGroup.sublist_assign (hown.filterMap _) (Nat.le_refl 0)

/-- Without `exposure` in front of it, `tint` needs no gap, and `texture_grain` moves up by the two
slots of `texture_dust`. -/
theorem allocate_concat_film :
    let vec3 : Glsl.NumericType := .vector .float .three
    let tiers : ResourceTiers := [.of .view (some (.ofFields [⟨"view_position", vec3, 0⟩])) []]
    let film : ResourceSet := .of .material (some (.ofFields [⟨"exposure", .scalar .float, 0⟩]))
      [⟨"texture_dust", ⟨true, true⟩, .flat, .float, true⟩]
    let us : List Uniform :=
      [⟨"float exposure", none, "float", "exposure", 0, none⟩,
        ⟨"sampler2D texture_dust", none, "sampler2D", "texture_dust", 0, some ⟨.flat, .color⟩⟩,
        ⟨"vec3 view_position", none, "vec3", "view_position", 0, none⟩,
        ⟨"vec3 tint", none, "vec3", "tint", 0, none⟩,
        ⟨"sampler2D texture_grain", none, "sampler2D", "texture_grain", 0, some ⟨.flat, .color⟩⟩]
    let places (l : ObjectLayout) := (l.uniforms.fields.map fun f => (f.name, f.offset),
      l.uniforms.byteSize, l.textures.textures.map fun t => (t.name, t.slot))
    ∃ l l', allocate tiers us = .ok l ∧ allocate (tiers ++ [film]) us = .ok l' ∧
      places l = ([("exposure", 0), ("tint", 16)], 32, [("texture_dust", 0), ("texture_grain", 2)]) ∧
      places l' = ([("tint", 0)], 16, [("texture_grain", 0)]) ∧
      l'.uniforms.byteSize ≤ l.uniforms.byteSize := by
  intro vec3 tiers film us places
  obtain ⟨l, hl, hplaces⟩ := map_eq_ok.1 (show places <$> allocate tiers us =
      .ok ([("exposure", 0), ("tint", 16)], 32, [("texture_dust", 0), ("texture_grain", 2)]) by
    decide +kernel)
  obtain ⟨l', hl', -, -, -, -, hsize⟩ := allocate_concat hl film
  have hplaces' : places <$> allocate (tiers ++ [film]) us =
      .ok ([("tint", 0)], 16, [("texture_grain", 0)]) := by decide +kernel
  rw [hl'] at hplaces'
  exact ⟨l, l', hl, hl', hplaces, Except.ok.inj hplaces', hsize⟩

end ObjectLayout

end ForwardShading
