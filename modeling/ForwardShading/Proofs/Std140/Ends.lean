import ForwardShading.Proofs.FirstFault
import ForwardShading.Proofs.Std140.Placement

/-!
# Where fields end

Where fields end on natural numbers, without words and limits.  Placing fields within a limit finds
fault with the first of them that ends behind the limit, and with nothing else
(`Layout.reports_ofFieldsWithin`): no word overflows before a limit is exceeded, and rounding the size
up exceeds no limit that is itself a multiple of 16 bytes.
-/

namespace ForwardShading.Std140

namespace Field

/-- Where a field behind `cursor` ends. -/
def endAt (f : Field) (cursor : Nat) : Nat :=
  roundUp cursor f.alignment.toNat + f.stride.toNat * f.elements

theorem le_endAt (f : Field) (cursor : Nat) : cursor ≤ f.endAt cursor :=
  Nat.le_trans (le_roundUp cursor f.alignment_pos) (Nat.le_add_right _ _)

end Field

/-- Where fields behind `cursor` end, one placed behind the other. -/
def endOf (cursor : Nat) (fs : List Field) : Nat :=
  fs.foldl (fun cursor f => f.endAt cursor) cursor

/-- The size of a buffer, which is a multiple of 16 bytes. -/
def bufferSize (fs : List Field) : Nat :=
  roundUp (endOf 0 fs) 16

theorem le_endOf (cursor : Nat) (fs : List Field) : cursor ≤ endOf cursor fs := by
  induction fs generalizing cursor with
  | nil => exact Nat.le_refl cursor
  | cons f fs ih => exact Nat.le_trans (f.le_endAt cursor) (ih _)

theorem endOf_append (cursor : Nat) (fs gs : List Field) :
    endOf cursor (fs ++ gs) = endOf (endOf cursor fs) gs :=
  List.foldl_append

theorem roundUp_le_iff {n m k : Nat} (hm : 0 < m) (hk : m ∣ k) : roundUp n m ≤ k ↔ n ≤ k := by
  refine ⟨Nat.le_trans (le_roundUp n hm), fun h => ?_⟩
  obtain ⟨a, ha⟩ := dvd_roundUp n m
  obtain ⟨b, rfl⟩ := hk
  have hlt := roundUp_lt n hm
  rw [ha] at hlt ⊢
  refine Nat.mul_le_mul_left m (Nat.lt_succ_iff.1 ?_)
  refine Nat.lt_of_mul_lt_mul_left (a := m) ?_
  rw [Nat.mul_succ]
  omega

/-! ## Placing within a limit -/

namespace Field

variable {f : Field} {limit offset cursor : UInt32}

/-- A word that holds the end of a field exists where the end is within a limit. -/
theorem end?_eq_none :
    f.end? limit offset = none ↔ limit.toNat < offset.toNat + f.stride.toNat * f.elements := by
  have hlimit := limit.toNat_lt_size
  cases hsize : f.byteSize? with
  | none =>
    have hbig := ofNat?_eq_none.1 hsize
    exact iff_of_true (by rw [end?, hsize]; rfl) (by omega)
  | some size =>
    have hsize' := ofNat?_eq_some.1 hsize
    cases hstop : ofNat? (offset.toNat + size.toNat) with
    | none =>
      have hbig := ofNat?_eq_none.1 hstop
      exact iff_of_true (by simp [end?, hsize, hstop]) (by omega)
    | some stop =>
      have hstop' := ofNat?_eq_some.1 hstop
      simp only [end?, hsize, hstop, Option.bind_eq_bind, Option.bind_some, ite_eq_right_iff,
        reduceCtorEq, imp_false, UInt32.le_iff_toNat_le]
      omega

end Field

section Step

variable {limit cursor : UInt32} {f : Field}

/-- A field that ends within the limit is placed, and the others behind it. -/
theorem place_cons_of_le (h : f.endAt cursor.toNat ≤ limit.toNat) (last : String)
    (fs : List Field) :
    ∃ offset stop : UInt32, offset.toNat = roundUp cursor.toNat f.alignment.toNat ∧
      stop.toNat = f.endAt cursor.toNat ∧ stop ≤ limit ∧
      place limit cursor last (f :: fs) =
        (⟨f, offset⟩ :: (place limit stop f.name fs).1, (place limit stop f.name fs).2) := by
  have hword := limit.toNat_lt_size
  rw [place]
  cases hoffset : f.offset? cursor with
  | none =>
    have hbig := ofNat?_eq_none.1 hoffset
    rw [Field.endAt] at h
    omega
  | some offset =>
    have hoffset' := ofNat?_eq_some.1 hoffset
    cases hend : f.end? limit offset with
    | none =>
      have hpast := Field.end?_eq_none.1 hend
      rw [Field.endAt, ← hoffset'] at h
      omega
    | some stop =>
      obtain ⟨hsized, hstop, hle⟩ := Field.end?_eq_some hend
      refine ⟨offset, stop, hoffset', ?_, hle, by simp only [hend]⟩
      rw [Field.endAt, ← hoffset', hstop, hsized]

theorem snd_place_cons_of_lt (h : limit.toNat < f.endAt cursor.toNat) (last : String)
    (fs : List Field) : (place limit cursor last (f :: fs)).2 = .error f.name := by
  rw [place]
  cases hoffset : f.offset? cursor with
  | none => rfl
  | some offset =>
    rw [Field.endAt, ← ofNat?_eq_some.1 hoffset] at h
    simp only [Field.end?_eq_none.2 h]

theorem endAt_le_of_snd_place_eq_ok {last : String} {fs : List Field} {size : UInt32}
    (h : (place limit cursor last (f :: fs)).2 = .ok size) : f.endAt cursor.toNat ≤ limit.toNat := by
  refine Nat.not_lt.1 fun hpast => ?_
  rw [snd_place_cons_of_lt hpast] at h
  cases h

theorem snd_place_nil_eq_ok {last : String} {size : UInt32} :
    (place limit cursor last []).2 = .ok size ↔
      size.toNat = roundUp cursor.toNat 16 ∧ size ≤ limit := by
  rw [place]
  cases hround : ofNat? (roundUp cursor.toNat 16) with
  | none =>
    have hbig := ofNat?_eq_none.1 hround
    have hsize := size.toNat_lt_size
    exact iff_of_false (fun h => by cases h) fun h => by omega
  | some n =>
    rw [← ofNat?_eq_some.1 hround, UInt32.toNat_inj]
    by_cases hle : n ≤ limit
    · simp only [hle, if_true, Except.ok.injEq]
      exact ⟨fun h => ⟨h.symm, h ▸ hle⟩, fun h => h.1.symm⟩
    · simp only [hle, if_false, reduceCtorEq, false_iff]
      exact fun h => hle (h.1 ▸ h.2)

theorem snd_place_nil_eq_error {last name : String} :
    (place limit cursor last []).2 = .error name ↔
      limit.toNat < roundUp cursor.toNat 16 ∧ last = name := by
  rw [place]
  cases hround : ofNat? (roundUp cursor.toNat 16) with
  | none =>
    have hbig := ofNat?_eq_none.1 hround
    have hword := limit.toNat_lt_size
    rw [Except.error.injEq, and_iff_right (by omega)]
  | some n =>
    rw [← ofNat?_eq_some.1 hround, ← UInt32.lt_iff_toNat_lt, ← UInt32.not_le]
    by_cases hle : n ≤ limit
    · simp only [hle, if_true, reduceCtorEq, not_true, false_and]
    · simp only [hle, if_false, Except.error.injEq, not_false_eq_true, true_and]

theorem snd_place_eq_ok {last : String} {fs : List Field} {size : UInt32} :
    (place limit cursor last fs).2 = .ok size ↔
      size.toNat = roundUp (endOf cursor.toNat fs) 16 ∧ size ≤ limit := by
  induction fs generalizing cursor last with
  | nil => exact snd_place_nil_eq_ok
  | cons f fs ih =>
    rcases Nat.lt_or_ge limit.toNat (f.endAt cursor.toNat) with hpast | hfits
    · rw [snd_place_cons_of_lt hpast]
      refine iff_of_false nofun fun ⟨hsize, hle⟩ => ?_
      have hend := le_endOf (f.endAt cursor.toNat) fs
      have hround := le_roundUp (endOf cursor.toNat (f :: fs)) (show 0 < 16 by decide)
      rw [← hsize] at hround
      exact Nat.not_le.2 hpast
        (Nat.le_trans (Nat.le_trans hend hround) (UInt32.le_iff_toNat_le.1 hle))
    · obtain ⟨offset, stop, -, hstop, -, hplace⟩ := place_cons_of_le hfits last fs
      rw [hplace, ih, hstop]
      rfl

end Step

/-- Where placing within a limit fails: at the first field that ends behind the limit, or else at the
last one, if only the rounded size exceeds the limit. -/
theorem snd_place_eq_error {limit cursor : UInt32} {last name : String} {fs : List Field}
    (hcursor : cursor ≤ limit) :
    (place limit cursor last fs).2 = .error name ↔
      FirstFault (fun before f name =>
          limit.toNat < endOf cursor.toNat (before ++ [f]) ∧ f.name = name) fs name ∨
        endOf cursor.toNat fs ≤ limit.toNat ∧ limit.toNat < roundUp (endOf cursor.toNat fs) 16 ∧
          (fs.getLast?.map (·.name)).getD last = name := by
  induction fs generalizing cursor last with
  | nil =>
    rw [snd_place_nil_eq_error]
    refine ⟨fun h => .inr ⟨UInt32.le_iff_toNat_le.1 hcursor, h⟩, ?_⟩
    exact fun h => (h.resolve_left not_firstFault_nil).2
  | cons f fs ih =>
    have hfault : ∀ name, (limit.toNat < endOf cursor.toNat ([] ++ [f]) ∧ f.name = name) ↔
        limit.toNat < f.endAt cursor.toNat ∧ f.name = name := fun name => Iff.rfl
    rw [firstFault_cons, hfault]
    rcases Nat.lt_or_ge limit.toNat (f.endAt cursor.toNat) with hpast | hfits
    · have hends : limit.toNat < endOf cursor.toNat (f :: fs) :=
        Nat.lt_of_lt_of_le hpast (le_endOf _ fs)
      rw [snd_place_cons_of_lt hpast, Except.error.injEq]
      refine ⟨fun hname => .inl (.inl ⟨hpast, hname⟩), ?_⟩
      rintro ((⟨-, hname⟩ | ⟨hfits, -⟩) | ⟨hfits, -⟩)
      · exact hname
      · exact absurd ⟨hpast, rfl⟩ (hfits f.name)
      · exact absurd hends (Nat.not_lt.2 hfits)
    · obtain ⟨offset, stop, -, hstop, hle, hplace⟩ := place_cons_of_le hfits last fs
      have hfits' : ∀ name, ¬ (limit.toNat < f.endAt cursor.toNat ∧ f.name = name) :=
        fun _ h => absurd h.1 (Nat.not_lt.2 hfits)
      have hlast : ((f :: fs).getLast?.map (·.name)).getD last =
          (fs.getLast?.map (·.name)).getD f.name := by
        rw [List.getLast?_cons]
        cases fs.getLast? <;> rfl
      rw [hplace, ih hle, hstop, hlast]
      simp only [hfault, hfits', not_false_eq_true, implies_true, true_and, false_or]
      exact Iff.rfl

/-- Within a limit that is a multiple of 16 bytes, placing finds fault with the first field that ends
behind it. -/
theorem reports_place {limit cursor : UInt32} {last : String} {fs : List Field}
    (hlimit : 16 ∣ limit.toNat) (hcursor : cursor ≤ limit) :
    Reports (fun before f name => limit.toNat < endOf cursor.toNat (before ++ [f]) ∧ f.name = name)
      fs (place limit cursor last fs).2 := by
  intro name
  rw [snd_place_eq_error hcursor]
  refine or_iff_left fun ⟨hends, hround, _⟩ => ?_
  exact absurd ((roundUp_le_iff (by decide) hlimit).2 hends) (Nat.not_le.2 hround)

theorem Layout.reports_ofFieldsWithin {limit : UInt32} (hlimit : 16 ∣ limit.toNat) (hpos : 16 ≤ limit)
    (fs : List Field) :
    Reports (fun before f name => limit.toNat < endOf 0 (before ++ [f]) ∧ f.name = name) fs
      (ofFieldsWithin limit fs) := by
  have hplace : Reports (fun before f name => limit.toNat < endOf 0 (before ++ [f]) ∧ f.name = name)
      (orPlaceholder fs) (place limit 0 "" (orPlaceholder fs)).2 :=
    reports_place hlimit (UInt32.le_iff_toNat_le.2 (Nat.zero_le _))
  cases fs with
  | cons f fs => exact hplace.map _
  | nil =>
    have hfits : endOf 0 ([] ++ [placeholder]) ≤ limit.toNat :=
      Nat.le_trans (by decide) (UInt32.le_iff_toNat_le.1 hpos)
    obtain ⟨size, hsize⟩ := hplace.exists_ok.2
      (faultless_cons.2 ⟨fun name hname => absurd hname.1 (Nat.not_lt.2 hfits), faultless_nil⟩)
    have hok : ofFieldsWithin limit [] =
        .ok ⟨(place limit 0 "" (orPlaceholder [])).1, size⟩ :=
      congrArg (Except.map _) hsize
    rw [hok]
    exact reports_nil _

theorem bufferSize_le_iff {fs : List Field} {limit : Nat} (h : 16 ∣ limit) :
    bufferSize fs ≤ limit ↔ endOf 0 fs ≤ limit :=
  roundUp_le_iff (by decide) h

end ForwardShading.Std140
