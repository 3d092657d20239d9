import ForwardShading.Proofs.Text.Words
import ForwardShading.Text.Numeral
import Mathlib.Data.List.Basic
import Mathlib.Data.List.Induction

/-!
# Written numbers

Numbers are written in digits, and different numbers are written differently.  A numeral may have zeros
and a plus sign in front of the digits, and what is read as a number is such a numeral
(`word32?_eq_some`).
-/

namespace ForwardShading.Text

theorem toList_toString (n : Nat) : (toString n).toList = Nat.toDigits 10 n := by
  rw [Nat.toString_eq_repr, Nat.toList_repr]

theorem isDigit_of_mem_toString {n : Nat} {c : Char} (h : c ∈ (toString n).toList) :
    c.isDigit = true := by
  rw [toList_toString] at h
  exact Nat.isDigit_of_mem_toDigits (by decide) (by decide) h

theorem toString_inj {m n : Nat} : toString m = toString n ↔ m = n := by
  refine ⟨fun h => ?_, fun h => h ▸ rfl⟩
  have hdigits : Nat.toDigits 10 m = Nat.toDigits 10 n := by
    rw [← toList_toString, ← toList_toString]
    exact congrArg String.toList h
  rw [← @Nat.ofDigitChars_ten_toDigits m, hdigits, Nat.ofDigitChars_ten_toDigits]

/-! ## Numerals -/

/-- Holds of the texts that stand for a number: its digits, behind any zeros and at most one plus
sign. -/
def IsNumeral (n : UInt32) (cs : List Char) : Prop :=
  ∃ sign zeros, (sign = [] ∨ sign = ['+']) ∧
    cs = sign ++ (List.replicate zeros '0' ++ (toString n.toNat).toList)

theorem digitsValue_eq (ds : List Char) : digitsValue ds = Nat.ofDigitChars 10 ds 0 :=
  Nat.ofDigitChars_eq_foldl.symm

theorem digitsValue_concat (ds : List Char) (d : Char) :
    digitsValue (ds ++ [d]) = 10 * digitsValue ds + (d.toNat - '0'.toNat) := by
  rw [digitsValue, List.foldl_append]
  rfl

theorem digitsValue_zeros (zeros : Nat) (ds : List Char) :
    digitsValue (List.replicate zeros '0' ++ ds) = digitsValue ds := by
  rw [digitsValue_eq, Nat.ofDigitChars_append, Nat.ofDigitChars_replicate_zero, Nat.mul_zero,
    digitsValue_eq]

theorem digitsValue_toDigits (n : Nat) : digitsValue (Nat.toDigits 10 n) = n := by
  rw [digitsValue_eq, Nat.ofDigitChars_ten_toDigits]

theorem exists_digit_of_isDigit {c : Char} (h : c.isDigit = true) :
    ∃ d < 10, c = Nat.digitChar d ∧ c.toNat - '0'.toNat = d := by
  have hbounds : '0'.toNat ≤ c.toNat ∧ c.toNat ≤ '9'.toNat := Char.isDigit_iff_toNat.1 h
  have hd : c.toNat - '0'.toNat < 10 := by
    have h9 : '9'.toNat = '0'.toNat + 9 := by decide
    omega
  refine ⟨c.toNat - '0'.toNat, hd, Char.toNat_inj.1 ?_, rfl⟩
  rw [Nat.toNat_digitChar_of_lt_ten hd]
  have h0 : '0'.toNat = 48 := by decide
  omega

/-- A run of digits is zeros in front of the digits of its value. -/
theorem exists_zeros_of_digits {ds : List Char} (hne : ds ≠ []) (h : ∀ c ∈ ds, c.isDigit = true) :
    ∃ zeros, ds = List.replicate zeros '0' ++ Nat.toDigits 10 (digitsValue ds) := by
  induction ds using List.reverseRecOn with
  | nil => exact absurd rfl hne
  | append_singleton ds c ih =>
    obtain ⟨d, hd, hc, hvalue⟩ := exists_digit_of_isDigit (h c (by simp))
    have hsingle : Nat.toDigits 10 d = [c] := by rw [Nat.toDigits_of_lt_base hd, hc]
    rw [digitsValue_concat, hvalue]
    by_cases hds : ds = []
    · subst hds
      exact ⟨0, by simpa [digitsValue] using hsingle.symm⟩
    · obtain ⟨zeros, hzeros⟩ := ih hds fun c' hc' => h c' (by simp [hc'])
      by_cases hpos : 0 < digitsValue ds
      · refine ⟨zeros, ?_⟩
        rw [← Nat.toDigits_append_toDigits (by decide) hpos hd, hsingle, ← List.append_assoc, ← hzeros]
      · -- The digits in front are zeros, the last of which is the digit of their value.
        have hzero : digitsValue ds = 0 := Nat.eq_zero_of_not_pos hpos
        refine ⟨zeros + 1, ?_⟩
        rw [hzero, Nat.toDigits_zero, ← List.replicate_succ'] at hzeros
        rw [hzero, Nat.mul_zero, Nat.zero_add, hsingle, ← hzeros]

theorem exists_sign (cs : List Char) :
    ∃ sign, (sign = [] ∨ sign = ['+']) ∧ cs = sign ++ unsigned cs := by
  unfold unsigned
  split
  · exact ⟨['+'], .inr rfl, rfl⟩
  · exact ⟨[], .inl rfl, rfl⟩

theorem unsigned_append {sign ds : List Char} (hsign : sign = [] ∨ sign = ['+'])
    (h : ∀ c ∈ ds, c.isDigit = true) : unsigned (sign ++ ds) = ds := by
  rcases hsign with rfl | rfl
  · rw [List.nil_append]
    unfold unsigned
    split
    · exact absurd (h '+' List.mem_cons_self) (by decide)
    · rfl
  · rfl

/-- What is read as a number is a numeral of it. -/
theorem word32?_eq_some {cs : List Char} {n : UInt32} : word32? cs = some n ↔ IsNumeral n cs := by
  unfold word32? IsNumeral
  rw [toList_toString]
  constructor
  · intro h
    obtain ⟨⟨hne, hall, hlt⟩, hn⟩ := Option.ite_none_right_eq_some.1 h
    have hvalue : digitsValue (unsigned cs) = n.toNat := by
      rw [← Option.some.inj hn, UInt32.toNat_ofNat_of_lt' hlt]
    obtain ⟨sign, hsign, hcs⟩ := exists_sign cs
    obtain ⟨zeros, hzeros⟩ := exists_zeros_of_digits hne (List.all_eq_true.1 hall)
    rw [hvalue] at hzeros
    exact ⟨sign, zeros, hsign, hzeros ▸ hcs⟩
  · rintro ⟨sign, zeros, hsign, rfl⟩
    have hall : ∀ c ∈ List.replicate zeros '0' ++ Nat.toDigits 10 n.toNat, c.isDigit = true := by
      intro c hc
      rcases List.mem_append.1 hc with hc | hc
      · rw [List.eq_of_mem_replicate hc]
        decide
      · exact Nat.isDigit_of_mem_toDigits (by decide) (by decide) hc
    have hvalue : digitsValue (List.replicate zeros '0' ++ Nat.toDigits 10 n.toNat) = n.toNat := by
      rw [digitsValue_zeros, digitsValue_toDigits]
    simp only [unsigned_append hsign hall, hvalue]
    rw [if_pos ⟨by simp, List.all_eq_true.2 hall, n.toNat_lt⟩, UInt32.ofNat_toNat]

theorem IsNumeral.eq_plus_or_isDigit {n : UInt32} {cs : List Char} (h : IsNumeral n cs) :
    ∀ c ∈ cs, c = '+' ∨ c.isDigit = true := by
  obtain ⟨sign, zeros, hsign, rfl⟩ := h
  intro c hc
  rcases List.mem_append.1 hc with hc | hc
  · rcases hsign with rfl | rfl
    · cases hc
    · exact .inl (List.mem_singleton.1 hc)
  · rcases List.mem_append.1 hc with hc | hc
    · rw [List.eq_of_mem_replicate hc]
      exact .inr (by decide)
    · exact .inr (isDigit_of_mem_toString hc)

theorem not_isWhite_of_isDigit {c : Char} (h : c.isDigit = true) : isWhite c = false := by
  have hbounds : '0'.toNat ≤ c.toNat ∧ c.toNat ≤ '9'.toNat := Char.isDigit_iff_toNat.1 h
  have h0 : '0'.toNat = 48 := by decide
  have h9 : '9'.toNat = 57 := by decide
  by_contra hwhite
  simp [isWhite] at hwhite
  omega

theorem IsNumeral.isWord {n : UInt32} {cs : List Char} (h : IsNumeral n cs) : IsWord cs := by
  refine ⟨?_, fun c hc => ?_⟩
  · obtain ⟨sign, zeros, -, rfl⟩ := h
    simp
  · rcases h.eq_plus_or_isDigit c hc with rfl | hdigit
    · decide
    · exact not_isWhite_of_isDigit hdigit

end ForwardShading.Text
