import ForwardShading.Proofs.Std140.Ends
import ForwardShading.Proofs.Std140.Write

/-!
# Layouts of fewer fields

Leaving fields out of a layout pushes none of the others back (`sublist_place`), although the gaps in
front of them change.  So a layout of fewer fields stays within the limit of the layout of all of them
and is not larger (`Layout.sublist_ofFieldsWithin`), also where no field is left and one stands in.
-/

namespace ForwardShading.Std140

theorem roundUp_mono {n n' m : Nat} (hm : 0 < m) (h : n ≤ n') : roundUp n m ≤ roundUp n' m :=
  (roundUp_le_iff hm (dvd_roundUp n' m)).2 (Nat.le_trans h (le_roundUp n' hm))

namespace Field

variable (f : Field)

theorem endAt_mono {cursor cursor' : Nat} (h : cursor ≤ cursor') :
    f.endAt cursor ≤ f.endAt cursor' :=
  Nat.add_le_add_right (roundUp_mono f.alignment_pos h) _

theorem endAt_pos (cursor : Nat) : 0 < f.endAt cursor := by
  have hword := f.type.componentOffset_add_four_le_byteSize f.type.capacity_pos
  have hstride : f.type.byteSize.toNat ≤ f.stride.toNat := PlacedField.byteSize_le_stride ⟨f, 0⟩
  have helements : 0 < f.elements := Nat.lt_of_lt_of_le Nat.one_pos (Nat.le_max_right _ _)
  exact Nat.add_pos_right _ (Nat.mul_pos (by omega) helements)

end Field

/-- A buffer with a field is not smaller than the buffer of the field that stands in for none. -/
theorem sixteen_le_bufferSize {fs : List Field} (h : fs ≠ []) : 16 ≤ bufferSize fs := by
  cases fs with
  | nil => exact absurd rfl h
  | cons f fs =>
    have hpos := Nat.lt_of_lt_of_le (f.endAt_pos 0) (le_endOf (f.endAt 0) fs)
    exact roundUp_mono (n := 1) (m := 16) (by decide) hpos

/-- The same field, and not behind where it is in the other layout. -/
def PlacedField.NotBehind (f g : PlacedField) : Prop :=
  f.toField = g.toField ∧ f.offset ≤ g.offset

theorem fst_place_nil (limit cursor : UInt32) (last : String) : (place limit cursor last []).1 = [] := by
  rw [place]
  split <;> rfl

/-- Leaving fields out and beginning earlier pushes none of the others back. -/
theorem sublist_place {limit cursor cursor' size : UInt32} {last last' : String}
    {fs fs' : List Field} (hfs : fs'.Sublist fs) (hcursor : cursor' ≤ cursor)
    (hsize : (place limit cursor last fs).2 = .ok size) :
    ∃ size', (place limit cursor' last' fs').2 = .ok size' ∧ size' ≤ size ∧
      List.SublistForall₂ PlacedField.NotBehind (place limit cursor' last' fs').1
        (place limit cursor last fs).1 := by
  -- The two cursors move apart where a field is left out, so they are general.
  induction hfs generalizing cursor cursor' last last' with
  | slnil =>
    obtain ⟨hround, hle⟩ := snd_place_nil_eq_ok.1 hsize
    have hmono := roundUp_mono (m := 16) (by decide) (UInt32.le_iff_toNat_le.1 hcursor)
    rw [← hround] at hmono
    have hsmall := Nat.lt_of_le_of_lt hmono size.toNat_lt_size
    obtain ⟨size', hsize'⟩ : ∃ size' : UInt32, size'.toNat = roundUp cursor'.toNat 16 :=
      ⟨_, UInt32.toNat_ofNat_of_lt' hsmall⟩
    have hle' : size' ≤ size := UInt32.le_iff_toNat_le.2 (hsize' ▸ hmono)
    refine ⟨size', snd_place_nil_eq_ok.2 ⟨hsize', UInt32.le_trans hle' hle⟩, hle', ?_⟩
    rw [fst_place_nil]
    exact .nil
  | @cons fs' fs f _ ih =>
    have hfits := endAt_le_of_snd_place_eq_ok hsize
    obtain ⟨offset, stop, -, hstop, -, hplace⟩ := place_cons_of_le hfits last fs
    have hbehind : cursor ≤ stop := UInt32.le_iff_toNat_le.2 (hstop ▸ f.le_endAt _)
    rw [hplace] at hsize ⊢
    obtain ⟨size', hsize', hle, hrest⟩ := ih (UInt32.le_trans hcursor hbehind) hsize
    exact ⟨size', hsize', hle, .cons_right hrest⟩
  | @cons_cons fs' fs f _ ih =>
    have hfits := endAt_le_of_snd_place_eq_ok hsize
    have hmono := f.endAt_mono (UInt32.le_iff_toNat_le.1 hcursor)
    have hoffsets := roundUp_mono f.alignment_pos (UInt32.le_iff_toNat_le.1 hcursor)
    obtain ⟨offset, stop, hoffset, hstop, -, hplace⟩ := place_cons_of_le hfits last fs
    obtain ⟨offset', stop', hoffset', hstop', -, hplace'⟩ :=
      place_cons_of_le (Nat.le_trans hmono hfits) last' fs'
    rw [← hstop, ← hstop'] at hmono
    rw [← hoffset, ← hoffset'] at hoffsets
    rw [hplace] at hsize ⊢
    rw [hplace']
    obtain ⟨size', hsize', hle, hrest⟩ := ih (UInt32.le_iff_toNat_le.2 hmono) hsize
    exact ⟨size', hsize', hle, .cons ⟨rfl, UInt32.le_iff_toNat_le.2 hoffsets⟩ hrest⟩

namespace Layout

variable {limit : UInt32} {fs fs' : List Field} {l : Layout}

theorem toNat_byteSize (hl : ofFieldsWithin limit fs = .ok l) :
    l.byteSize.toNat = bufferSize (orPlaceholder fs) :=
  (snd_place_eq_ok.1 (ofFieldsWithin_eq_ok.1 hl).2).1

/-- The layout of fewer fields is not larger, and none of them is behind where it was. -/
theorem sublist_ofFieldsWithin (hfs : fs'.Sublist fs) (hl : ofFieldsWithin limit fs = .ok l) :
    ∃ l', ofFieldsWithin limit fs' = .ok l' ∧ l'.byteSize ≤ l.byteSize ∧
      (fs' ≠ [] → List.SublistForall₂ PlacedField.NotBehind l'.fields l.fields) := by
  obtain ⟨hplaced, hsize⟩ := ofFieldsWithin_eq_ok.1 hl
  by_cases hnone : fs' = []
  · subst hnone
    have hsixteen : bufferSize (orPlaceholder fs) = l.byteSize.toNat := (toNat_byteSize hl).symm
    have hle : 16 ≤ l.byteSize :=
      UInt32.le_iff_toNat_le.2 (hsixteen ▸ sixteen_le_bufferSize (orPlaceholder_ne_nil fs))
    have hplaceholder : (place limit 0 "" (orPlaceholder [])).2 = .ok 16 :=
      snd_place_eq_ok.2 ⟨by decide, UInt32.le_trans hle (snd_place_eq_ok.1 hsize).2⟩
    exact ⟨⟨_, 16⟩, ofFieldsWithin_eq_ok.2 ⟨rfl, hplaceholder⟩, hle, absurd rfl⟩
  · have hne : fs ≠ [] := fun hfs' => hnone (List.sublist_nil.1 (hfs' ▸ hfs))
    rw [orPlaceholder_eq_self hne] at hplaced hsize
    obtain ⟨size', hsize', hle, hfields⟩ := sublist_place hfs (UInt32.le_refl 0) hsize
    rw [hplaced] at hfields
    refine ⟨⟨_, size'⟩, ofFieldsWithin_eq_ok.2 ?_, hle, fun _ => hfields⟩
    rw [orPlaceholder_eq_self hnone]
    exact ⟨rfl, hsize'⟩

end Layout

end ForwardShading.Std140
