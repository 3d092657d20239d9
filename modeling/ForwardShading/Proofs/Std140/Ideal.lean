import ForwardShading.Proofs.Std140.Removal
import ForwardShading.Proofs.Std140.WriteOrder
import Mathlib.Order.Bounds.Defs

/-!
# Layouts on words and on numbers

The std140 layout is a matter of natural numbers without bound: each field begins at the least
multiple of its alignment that is not below the end of the field before, and the size is the least
multiple of 16 bytes that is not below the end of the last.  A layout made of 32-bit words within a
limit is this layout where that stays within the limit, and where it does not, the error names the
field at which it first exceeds the limit (`Layout.ofFieldsWithin_exact`).  So nothing wraps around,
neither where sizes are multiplied and added nor where offsets are rounded up.
-/

namespace ForwardShading

namespace Glsl.NumericType

/-- The alignment in bytes of a single value. -/
def idealAlignment (t : NumericType) : Nat :=
  match t.columns, t.components with
  | 1, 1 => 4
  | 1, 2 => 8
  | _, _ => 16

/-- The size in bytes of a single value. -/
def idealSize (t : NumericType) : Nat :=
  if t.columns = 1 then 4 * t.components else 16 * t.columns

theorem toNat_alignment (t : NumericType) : t.alignment.toNat = t.idealAlignment := by
  rcases t with c | ⟨c, n⟩ | n
  · rfl
  · cases n <;> rfl
  · cases n <;> rfl

theorem toNat_byteSize (t : NumericType) : t.byteSize.toNat = t.idealSize := by
  rcases t with c | ⟨c, n⟩ | n
  · rfl
  · cases n <;> rfl
  · cases n <;> rfl

theorem idealSize_le (t : NumericType) : t.idealSize ≤ 64 := by
  rcases t with c | ⟨c, n⟩ | n
  · cases c <;> decide
  · cases c <;> cases n <;> decide
  · cases n <;> decide

end Glsl.NumericType

namespace Std140

theorem isLeast_roundUp {m : Nat} (hm : 0 < m) (n : Nat) :
    IsLeast {k | m ∣ k ∧ n ≤ k} (roundUp n m) :=
  ⟨⟨dvd_roundUp n m, le_roundUp n hm⟩, fun _ hk => (roundUp_le_iff hm hk.1).2 hk.2⟩

namespace Field

variable (f : Field)

/-- The alignment of a field as the standard has it. -/
def idealAlignment : Nat :=
  if f.count = 0 then f.type.idealAlignment else 16

/-- The distance of array elements. -/
def idealStride : Nat :=
  if f.count = 0 then f.type.idealSize else roundUp f.type.idealSize 16

/-- The size of a field as a number without bound. -/
def idealSize : Nat :=
  f.idealStride * max f.count.toNat 1

theorem toNat_alignment : f.alignment.toNat = f.idealAlignment := by
  unfold alignment idealAlignment
  split
  · exact f.type.toNat_alignment
  · rfl

theorem toNat_stride : f.stride.toNat = f.idealStride := by
  unfold stride idealStride
  split
  · exact f.type.toNat_byteSize
  · rw [f.type.toNat_byteSize]
    have hround := roundUp_lt f.type.idealSize (show 0 < 16 by decide)
    have hsize := f.type.idealSize_le
    exact UInt32.toNat_ofNat_of_lt' (by rw [UInt32.size]; omega)

theorem toNat_byteSize_eq_idealSize {f : Field} (h : f.byteSize.toNat = f.stride.toNat * f.elements) :
    f.byteSize.toNat = f.idealSize := by
  rw [h, toNat_stride]
  rfl

/-- Words hold the end of a field without loss. -/
theorem endAt_eq (cursor : Nat) : f.endAt cursor = roundUp cursor f.idealAlignment + f.idealSize := by
  rw [endAt, toNat_alignment, toNat_stride]
  rfl

end Field

/-- Where the last of some fields ends that are placed one behind the other. -/
def idealEnd (fs : List Field) : Nat :=
  fs.foldl (fun stop f => roundUp stop f.idealAlignment + f.idealSize) 0

/-- The size of a buffer with the given fields. -/
def idealTotal (fs : List Field) : Nat :=
  roundUp (idealEnd fs) 16

theorem idealEnd_eq (fs : List Field) : idealEnd fs = endOf 0 fs := by
  simp only [idealEnd, endOf, Field.endAt_eq]

theorem idealTotal_eq (fs : List Field) : idealTotal fs = bufferSize fs := by
  rw [idealTotal, idealEnd_eq, bufferSize]

/-- Holds of the name of a field that ends behind the limit. -/
def EndsPast (limit : Nat) (before : List Field) (f : Field) (name : String) : Prop :=
  limit < idealEnd (before ++ [f]) ∧ f.name = name

theorem endsPast_eq (limit : Nat) : EndsPast limit = fun before f name =>
    limit < endOf 0 (before ++ [f]) ∧ f.name = name := by
  funext before f name
  rw [EndsPast, idealEnd_eq]

/-- Fields end in ascending order, so all of them end within a limit if the last does. -/
theorem faultless_endsPast_iff {limit : Nat} {fs : List Field} :
    Faultless (EndsPast limit) fs ↔ endOf 0 fs ≤ limit := by
  rw [endsPast_eq]
  constructor
  · intro h
    rcases List.eq_nil_or_concat fs with rfl | ⟨before, f, rfl⟩
    · exact Nat.zero_le _
    · rw [List.concat_eq_append] at h ⊢
      exact Nat.not_lt.1 fun hpast => h before f [] rfl f.name ⟨hpast, rfl⟩
  · rintro h before f after rfl name ⟨hpast, -⟩
    have hends := le_endOf (endOf 0 (before ++ [f])) after
    rw [← endOf_append, List.append_assoc, List.singleton_append] at hends
    omega

namespace Layout

/-- Holds of a layout that places fields as on numbers without bound. -/
structure IsIdeal (l : Layout) (fs : List Field) : Prop where
  fields : l.fields.map (·.toField) = fs
  offset : ∀ before f after, l.fields = before ++ f :: after →
    IsLeast {n | f.idealAlignment ∣ n ∧ idealEnd (before.map (·.toField)) ≤ n} f.offset.toNat
  stop : ∀ before f after, l.fields = before ++ f :: after →
    f.offset.toNat + f.byteSize.toNat = idealEnd ((before ++ [f]).map (·.toField))
  byteSize : IsLeast {n | 16 ∣ n ∧ idealEnd fs ≤ n} l.byteSize.toNat

variable {limit : UInt32} {fs : List Field} {l : Layout}

/-- Each field begins where the least multiple of its alignment is. -/
theorem toNat_offset_of_place {cursor size : UInt32} {last : String} {before after : List PlacedField}
    {f : PlacedField} (hsize : (place limit cursor last fs).2 = .ok size)
    (hplaced : (place limit cursor last fs).1 = before ++ f :: after) :
    f.offset.toNat =
      roundUp (endOf cursor.toNat (before.map (·.toField))) f.alignment.toNat := by
  induction fs generalizing cursor last before with
  | nil =>
    rw [fst_place_nil] at hplaced
    cases before <;> cases hplaced
  | cons g fs ih =>
    have hfits := endAt_le_of_snd_place_eq_ok hsize
    obtain ⟨offset, stop, hoffset, hstop, -, hplace⟩ := place_cons_of_le hfits last fs
    rw [hplace] at hsize hplaced
    cases before with
    | nil =>
      cases hplaced
      exact hoffset
    | cons g' before =>
      obtain ⟨rfl, hrest⟩ := List.cons.inj hplaced
      rw [ih hsize hrest, hstop]
      rfl

theorem isIdeal_of_ofFieldsWithin (h : ofFieldsWithin limit fs = .ok l) :
    l.IsIdeal (orPlaceholder fs) := by
  obtain ⟨hplaced, hsize⟩ := ofFieldsWithin_eq_ok.1 h
  obtain ⟨hfields, hbetween⟩ := between_ofFieldsWithin h
  have hoffset : ∀ before f after, l.fields = before ++ f :: after → f.offset.toNat =
      roundUp (idealEnd (before.map (·.toField))) f.idealAlignment := by
    intro before f after hl
    rw [toNat_offset_of_place hsize (hplaced.trans hl), idealEnd_eq, f.toNat_alignment]
    rfl
  refine ⟨hfields, fun before f after hl => ?_, fun before f after hl => ?_, ?_⟩
  · rw [hoffset before f after hl]
    refine isLeast_roundUp ?_ _
    rw [← f.toNat_alignment]
    exact f.alignment_pos
  · have hf : f ∈ l.fields := by simp [hl]
    rw [hoffset before f after hl, Field.toNat_byteSize_eq_idealSize (hbetween.sized f hf),
      List.map_append, idealEnd, idealEnd, List.foldl_append]
    rfl
  · rw [toNat_byteSize h, ← idealTotal_eq]
    exact isLeast_roundUp (by decide) _

theorem exists_ofFieldsWithin_iff :
    (∃ l, ofFieldsWithin limit fs = .ok l) ↔ idealTotal (orPlaceholder fs) ≤ limit.toNat := by
  rw [idealTotal_eq]
  constructor
  · rintro ⟨l, hl⟩
    rw [← toNat_byteSize hl]
    exact UInt32.le_iff_toNat_le.1 (snd_place_eq_ok.1 (ofFieldsWithin_eq_ok.1 hl).2).2
  · intro h
    obtain ⟨size, hsize⟩ : ∃ size : UInt32, size.toNat = bufferSize (orPlaceholder fs) :=
      ⟨_, UInt32.toNat_ofNat_of_lt' (Nat.lt_of_le_of_lt h limit.toNat_lt_size)⟩
    refine ⟨⟨_, size⟩, ofFieldsWithin_eq_ok.2 ⟨rfl, snd_place_eq_ok.2 ⟨hsize, ?_⟩⟩⟩
    exact UInt32.le_iff_toNat_le.2 (hsize ▸ h)

theorem ofFieldsWithin_eq_error {name : String} :
    ofFieldsWithin limit fs = .error name ↔
      (place limit 0 "" (orPlaceholder fs)).2 = .error name := by
  show Except.map _ (place limit 0 "" (orPlaceholder fs)).2 = _ ↔ _
  cases (place limit 0 "" (orPlaceholder fs)).2 <;> simp [Except.map]

/-- Fields are laid out within a limit exactly if on numbers without bound all of them end within the
limit and the size does not exceed it.  They are then placed as on these numbers, aligned and in
order, apart from each other and inside the buffer.  Otherwise the error names the first field that
ends behind the limit, or the last field where none does. -/
theorem ofFieldsWithin_exact (limit : UInt32) (fs : List Field) :
    ((∃ l, ofFieldsWithin limit fs = .ok l) ↔
      Faultless (EndsPast limit.toNat) (orPlaceholder fs) ∧
        idealTotal (orPlaceholder fs) ≤ limit.toNat) ∧
    (∀ l, ofFieldsWithin limit fs = .ok l →
      l.IsIdeal (orPlaceholder fs) ∧ Between 0 l.byteSize.toNat l.fields) ∧
    ∀ name, ofFieldsWithin limit fs = .error name ↔
      FirstFault (EndsPast limit.toNat) (orPlaceholder fs) name ∨
        Faultless (EndsPast limit.toNat) (orPlaceholder fs) ∧
          limit.toNat < idealTotal (orPlaceholder fs) ∧
            ∃ f, (orPlaceholder fs).getLast? = some f ∧ f.name = name := by
  refine ⟨?_, fun l hl => ⟨isIdeal_of_ofFieldsWithin hl, (between_ofFieldsWithin hl).2⟩,
    fun name => ?_⟩
  · rw [exists_ofFieldsWithin_iff, faultless_endsPast_iff, ← idealEnd_eq]
    exact (and_iff_right_of_imp (Nat.le_trans (le_roundUp _ (by decide)))).symm
  · have hlast : ((orPlaceholder fs).getLast?.map (·.name)).getD "" = name ↔
        ∃ f, (orPlaceholder fs).getLast? = some f ∧ f.name = name := by
      rw [List.getLast?_eq_some_getLast (orPlaceholder_ne_nil fs)]
      simp
    rw [ofFieldsWithin_eq_error, snd_place_eq_error (UInt32.le_iff_toNat_le.2 (Nat.zero_le _)),
      faultless_endsPast_iff, endsPast_eq, idealTotal_eq, hlast]
    exact Iff.rfl

/-- A layout that just fits, a field whose rounded size does not, and an array whose end is no 32-bit
number. -/
theorem ofFieldsWithin_exact_packed :
    ofFieldsWithin 112 (packed.fields.map (·.toField)) = .ok packed ∧
      packed.IsIdeal (packed.fields.map (·.toField)) ∧
      ofFieldsWithin 12 [⟨"uv", .vector .float .two, 0⟩] = .error "uv" ∧
      ofFieldsWithin 0xFFFFFFFF
        [⟨"tint", .vector .float .four, 0⟩, ⟨"bones", .vector .float .four, 300000000⟩] =
          .error "bones" := by
  have hl : ofFieldsWithin 112 (packed.fields.map (·.toField)) = .ok packed := rfl
  refine ⟨hl, ((ofFieldsWithin_exact _ _).2.1 packed hl).1, ?_, ?_⟩
  · refine ((ofFieldsWithin_exact _ _).2.2 "uv").2 (.inr ⟨?_, by decide, _, rfl, rfl⟩)
    exact faultless_endsPast_iff.2 (by decide)
  · refine ((ofFieldsWithin_exact _ _).2.2 "bones").2 (.inl ⟨[_], _, [], rfl, ?_, by decide, rfl⟩)
    exact faultless_endsPast_iff.2 (by decide)

end Layout

end Std140

end ForwardShading
