/-!
# Sizes in 32-bit words

Offsets and sizes are computed on natural numbers and narrowed to 32 bits; a number that does not
fit is no size at all.
-/

namespace ForwardShading.Std140

/-- Narrows a number that fits in 32 bits. -/
def ofNat? (n : Nat) : Option UInt32 :=
  if n < UInt32.size then some (UInt32.ofNat n) else none

@[simp]
theorem ofNat?_eq_some {n : Nat} {w : UInt32} : ofNat? n = some w ↔ w.toNat = n := by
  unfold ofNat?
  constructor
  · intro h
    split at h
    · rename_i hn
      cases h
      exact UInt32.toNat_ofNat_of_lt' hn
    · cases h
  · rintro rfl
    have := w.toNat_lt_size
    simp_all

theorem ofNat?_eq_none {n : Nat} : ofNat? n = none ↔ UInt32.size ≤ n := by
  simp [ofNat?]

/-- The least multiple of `m` that is not below `n`. -/
def roundUp (n m : Nat) : Nat :=
  (n + (m - 1)) / m * m

theorem le_roundUp {m : Nat} (n : Nat) (hm : 0 < m) : n ≤ roundUp n m := by
  unfold roundUp
  have := Nat.div_add_mod (n + (m - 1)) m
  have := Nat.mod_lt (n + (m - 1)) hm
  rw [Nat.mul_comm]
  omega

theorem dvd_roundUp (n m : Nat) : m ∣ roundUp n m :=
  Nat.dvd_mul_left _ _

theorem roundUp_lt {m : Nat} (n : Nat) (hm : 0 < m) : roundUp n m < n + m := by
  unfold roundUp
  have := Nat.div_mul_le_self (n + (m - 1)) m
  omega

end ForwardShading.Std140
