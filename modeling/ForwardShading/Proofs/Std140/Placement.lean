import ForwardShading.Std140.Layout
import Mathlib.Data.List.Basic

/-!
# Where fields are placed

Placing fields puts them one behind the other (`between_place`): where it succeeds, each field has
its full size, begins behind the end of the one before, and ends inside the buffer.  No sum wraps
around, since sizes that do not fit in 32 bits are no sizes at all.
-/

namespace ForwardShading

theorem Glsl.NumericType.alignment_pos (t : Glsl.NumericType) : 0 < t.alignment.toNat := by
  have four : 0 < (4 : UInt32).toNat := by decide
  have eight : 0 < (8 : UInt32).toNat := by decide
  have sixteen : 0 < (16 : UInt32).toNat := by decide
  rcases t with c | ⟨c, n⟩ | n
  · exact four
  · cases n
    · exact eight
    · exact sixteen
    · exact sixteen
  · exact sixteen

namespace Std140

namespace Field

variable {f : Field} {limit offset stop cursor : UInt32}

theorem toNat_byteSize {size : UInt32} (h : f.byteSize? = some size) :
    f.byteSize.toNat = f.stride.toNat * f.elements := by
  rw [byteSize, h]
  exact ofNat?_eq_some.1 h

/-- A field that ends within a limit has a size, and ends that far behind its offset. -/
theorem end?_eq_some (h : f.end? limit offset = some stop) :
    f.byteSize.toNat = f.stride.toNat * f.elements ∧
      stop.toNat = offset.toNat + f.byteSize.toNat ∧ stop ≤ limit := by
  simp only [end?, Option.bind_eq_bind, Option.bind_eq_some_iff] at h
  obtain ⟨size, hsize, stop', hstop, h⟩ := h
  by_cases hle : stop' ≤ limit
  · rw [if_pos hle] at h
    cases h
    refine ⟨toNat_byteSize hsize, ?_, hle⟩
    rw [byteSize, hsize]
    exact ofNat?_eq_some.1 hstop
  · rw [if_neg hle] at h
    cases h

theorem alignment_pos (f : Field) : 0 < f.alignment.toNat := by
  unfold alignment
  split
  · exact f.type.alignment_pos
  · decide

theorem le_offset (h : f.offset? cursor = some offset) : cursor.toNat ≤ offset.toNat := by
  rw [ofNat?_eq_some.1 h]
  exact le_roundUp _ f.alignment_pos

end Field

/-- Fields between two byte positions, one behind the other. -/
structure Between (start stop : Nat) (fs : List PlacedField) : Prop where
  sized : ∀ f ∈ fs, f.byteSize.toNat = f.stride.toNat * f.elements
  after : ∀ f ∈ fs, start ≤ f.offset.toNat
  inside : ∀ f ∈ fs, f.offset.toNat + f.byteSize.toNat ≤ stop
  ordered : fs.Pairwise fun f g => f.offset.toNat + f.byteSize.toNat ≤ g.offset.toNat

namespace Between

variable {start stop : Nat} {f g : PlacedField} {fs : List PlacedField}

theorem nil (start stop : Nat) : Between start stop [] :=
  ⟨by simp, by simp, by simp, .nil⟩

theorem cons (hsize : f.byteSize.toNat = f.stride.toNat * f.elements)
    (hstart : start ≤ f.offset.toNat) (hstop : f.offset.toNat + f.byteSize.toNat ≤ stop)
    (h : Between (f.offset.toNat + f.byteSize.toNat) stop fs) : Between start stop (f :: fs) where
  sized := List.forall_mem_cons.2 ⟨hsize, h.sized⟩
  after := List.forall_mem_cons.2 ⟨hstart, fun g hg => by have := h.after g hg; omega⟩
  inside := List.forall_mem_cons.2 ⟨hstop, h.inside⟩
  ordered := List.pairwise_cons.2 ⟨h.after, h.ordered⟩

theorem disjoint (h : Between start stop fs) (hf : f ∈ fs) (hg : g ∈ fs) (hne : f ≠ g) :
    f.offset.toNat + f.byteSize.toNat ≤ g.offset.toNat ∨
      g.offset.toNat + g.byteSize.toNat ≤ f.offset.toNat := by
  induction fs generalizing start with
  | nil => cases hf
  | cons x fs ih =>
    obtain ⟨hx, hordered⟩ := List.pairwise_cons.1 h.ordered
    rcases List.mem_cons.1 hf with rfl | hf' <;> rcases List.mem_cons.1 hg with rfl | hg'
    · exact absurd rfl hne
    · exact .inl (hx g hg')
    · exact .inr (hx f hf')
    · exact ih ⟨(List.forall_mem_cons.1 h.sized).2, (List.forall_mem_cons.1 h.after).2,
        (List.forall_mem_cons.1 h.inside).2, hordered⟩ hf' hg'

end Between

/-- Fields that have a place stand one behind the other in the buffer, in their order. -/
theorem between_place {limit cursor size : UInt32} {last : String} {fs : List Field}
    {placed : List PlacedField} (h : place limit cursor last fs = (placed, .ok size)) :
    placed.map (·.toField) = fs ∧ cursor.toNat ≤ size.toNat ∧
      Between cursor.toNat size.toNat placed := by
  induction fs generalizing cursor last placed with
  | nil =>
    rw [place] at h
    cases hr : ofNat? (roundUp cursor.toNat 16) with
    | none =>
      rw [hr] at h
      cases h
    | some n =>
      rw [hr] at h
      obtain ⟨rfl, hn⟩ := Prod.mk.inj h
      by_cases hle : n ≤ limit
      · rw [if_pos hle] at hn
        cases hn
        refine ⟨rfl, ?_, .nil _ _⟩
        rw [ofNat?_eq_some.1 hr]
        exact le_roundUp _ (by decide)
      · rw [if_neg hle] at hn
        cases hn
  | cons f fs ih =>
    rw [place] at h
    cases ho : f.offset? cursor with
    | none =>
      rw [ho] at h
      cases h
    | some offset =>
      cases he : f.end? limit offset with
      | none =>
        simp only [ho, he] at h
        cases h
      | some stop =>
        simp only [ho, he, Prod.mk.injEq] at h
        obtain ⟨rfl, hsize⟩ := h
        obtain ⟨hsized, hstop, -⟩ := Field.end?_eq_some he
        obtain ⟨hfields, hle, hbetween⟩ := ih (Prod.ext rfl hsize)
        have hoffset := Field.le_offset ho
        rw [hstop] at hle hbetween
        refine ⟨by rw [List.map_cons, hfields], by omega, ?_⟩
        exact hbetween.cons hsized hoffset hle

theorem orPlaceholder_ne_nil (fs : List Field) : orPlaceholder fs ≠ [] := by
  cases fs <;> exact nofun

theorem orPlaceholder_eq_self {fs : List Field} (h : fs ≠ []) : orPlaceholder fs = fs := by
  cases fs with
  | nil => exact absurd rfl h
  | cons f fs => rfl

theorem Layout.ofFieldsWithin_eq_ok {limit : UInt32} {fs : List Field} {l : Layout} :
    ofFieldsWithin limit fs = .ok l ↔ (place limit 0 "" (orPlaceholder fs)).1 = l.fields ∧
      (place limit 0 "" (orPlaceholder fs)).2 = .ok l.byteSize := by
  show Except.map _ (place limit 0 "" (orPlaceholder fs)).2 = _ ↔ _
  obtain ⟨fields, byteSize⟩ := l
  cases (place limit 0 "" (orPlaceholder fs)).2 <;> simp [Except.map]

/-- A layout within a limit has the given fields, one behind the other. -/
theorem Layout.between_ofFieldsWithin {limit : UInt32} {fs : List Field} {l : Layout}
    (h : Layout.ofFieldsWithin limit fs = .ok l) :
    l.fields.map (·.toField) = orPlaceholder fs ∧ Between 0 l.byteSize.toNat l.fields := by
  obtain ⟨hplaced, hsize⟩ := ofFieldsWithin_eq_ok.1 h
  obtain ⟨hfields, -, hbetween⟩ := between_place (Prod.ext hplaced hsize)
  exact ⟨hfields, hbetween⟩

end Std140

end ForwardShading
