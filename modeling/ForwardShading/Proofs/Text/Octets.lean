import ForwardShading.Proofs.Text.Search

/-!
# Octets of a text

A text is stored as octets, one for an ASCII character and more for any other one.  A search for ASCII
characters may go by octets, since no octet of another character is one (`span_octets`,
`breakAt_octets`).  A slice goes by octets, too, and there is none unless a character begins at both
of its ends (`slice?_eq_some`).
-/

namespace ForwardShading.Text

/-- The octets of a text in UTF-8, each as the character with its number. -/
def octets (cs : List Char) : List Char :=
  cs.flatMap fun c => (String.utf8EncodeChar c).map Char.ofUInt8

/-- The number of octets of a text. -/
def size (cs : List Char) : Nat :=
  (octets cs).length

variable {c : Char} {f : Char → Bool}

@[simp]
theorem octets_nil : octets [] = [] :=
  rfl

@[simp]
theorem octets_append (as bs : List Char) : octets (as ++ bs) = octets as ++ octets bs :=
  List.flatMap_append

@[simp]
theorem size_nil : size [] = 0 :=
  rfl

@[simp]
theorem size_append (as bs : List Char) : size (as ++ bs) = size as + size bs := by
  simp [size]

theorem size_cons (c : Char) (cs : List Char) : size (c :: cs) = c.utf8Size + size cs := by
  simp [size, octets]

theorem toNat_ofUInt8 (n : UInt8) : (Char.ofUInt8 n).toNat = n.toNat :=
  rfl

theorem octets_cons_of_ascii (hc : c.toNat < 128) (cs : List Char) :
    octets (c :: cs) = c :: octets cs := by
  have hencode : String.utf8EncodeChar c = [UInt8.ofNat c.toNat] := by
    have hle : c.toNat ≤ 127 := by omega
    simp only [String.utf8EncodeChar, Char.toNat_val, if_pos hle]
  have hchar : Char.ofUInt8 (UInt8.ofNat c.toNat) = c := by
    apply Char.toNat_inj.1
    rw [toNat_ofUInt8, UInt8.toNat_ofNat']
    omega
  simp [octets, hencode, hchar]

theorem size_cons_of_ascii (hc : c.toNat < 128) (cs : List Char) :
    size (c :: cs) = size cs + 1 := by
  rw [size, octets_cons_of_ascii hc, List.length_cons]
  rfl

/-- No octet of a character that is not an ASCII one is an ASCII character. -/
theorem le_toNat_of_mem_octets (hc : 128 ≤ c.toNat) : ∀ b ∈ octets [c], 128 ≤ b.toNat := by
  have hnot : ¬ c.toNat ≤ 127 := by omega
  simp only [octets, List.flatMap_singleton, List.forall_mem_map, toNat_ofUInt8,
    String.utf8EncodeChar, Char.toNat_val, if_neg hnot]
  split_ifs <;> simp <;> omega

theorem ne_of_ascii {a : Char} (ha : a.toNat < 128) (hc : 128 ≤ c.toNat) : c ≠ a := by
  rintro rfl
  omega

theorem octets_singleton_ne_nil (c : Char) : octets [c] ≠ [] := by
  intro h
  have hsize : size [c] = 0 := congrArg List.length h
  have hpos := c.utf8Size_pos
  rw [size_cons, size_nil] at hsize
  omega

theorem exists_octets_eq_cons (hc : 128 ≤ c.toNat) :
    ∃ b bs, octets [c] = b :: bs ∧ 128 ≤ b.toNat := by
  obtain ⟨b, bs, hbs⟩ := List.exists_cons_of_ne_nil (octets_singleton_ne_nil c)
  exact ⟨b, bs, hbs, le_toNat_of_mem_octets hc b (by simp [hbs])⟩

/-- The first octet of a text passes a test for ASCII characters if its first character does. -/
theorem any_head?_octets (hf : ∀ c : Char, 128 ≤ c.toNat → f c = false) (cs : List Char) :
    (octets cs).head?.any f = cs.head?.any f := by
  cases cs with
  | nil => rfl
  | cons c cs =>
    by_cases hc : c.toNat < 128
    · rw [octets_cons_of_ascii hc]
      rfl
    · obtain ⟨b, bs, hbs, hb⟩ := exists_octets_eq_cons (Nat.le_of_not_lt hc)
      rw [← List.singleton_append, octets_append, hbs]
      exact (hf b hb).trans (hf c (Nat.le_of_not_lt hc)).symm

theorem head?_octets {a : Char} (ha : a.toNat < 128) (cs : List Char) :
    (octets cs).head? = some a ↔ cs.head? = some a := by
  have hany : ∀ o : Option Char, o = some a ↔ o.any (· == a) = true := by
    intro o
    cases o <;> simp
  have hne : ∀ c : Char, 128 ≤ c.toNat → (c == a) = false := fun c hc =>
    beq_eq_false_iff_ne.2 (ne_of_ascii ha hc)
  rw [hany, any_head?_octets hne, ← hany]

/-! ## Searching by octets -/

/-- Holds of a test that tells no other characters than ASCII ones from one another. -/
def AsciiTest (f : Char → Bool) : Prop :=
  ∀ c d : Char, 128 ≤ c.toNat → 128 ≤ d.toNat → f c = f d

theorem span_octets (hf : AsciiTest f) (cs : List Char) :
    (octets cs).takeWhile f = octets (cs.takeWhile f) ∧
      (octets cs).dropWhile f = octets (cs.dropWhile f) := by
  induction cs with
  | nil => exact ⟨rfl, rfl⟩
  | cons c cs ih =>
    obtain ⟨htake, hdrop⟩ := ih
    by_cases hc : c.toNat < 128
    · rw [octets_cons_of_ascii hc]
      by_cases hfc : f c = true
      · simp [hfc, octets_cons_of_ascii hc, htake, hdrop]
      · simp [hfc, octets_cons_of_ascii hc]
    · have heq : ∀ b ∈ octets [c], f b = f c := fun b hb =>
        hf b c (le_toNat_of_mem_octets (Nat.le_of_not_lt hc) b hb) (Nat.le_of_not_lt hc)
      rw [← List.singleton_append, octets_append]
      by_cases hfc : f c = true
      · have hall : ∀ b ∈ octets [c], f b = true := fun b hb => (heq b hb).trans hfc
        rw [List.takeWhile_append_of_pos hall, List.dropWhile_append_of_pos hall, htake, hdrop]
        simp [hfc, ← octets_append]
      · obtain ⟨b, bs, hbs, -⟩ := exists_octets_eq_cons (Nat.le_of_not_lt hc)
        have hfb : ¬ f b = true := by
          rw [heq b (by simp [hbs])]
          exact hfc
        rw [hbs, List.cons_append, List.takeWhile_cons_of_neg hfb, List.dropWhile_cons_of_neg hfb,
          List.singleton_append, List.takeWhile_cons_of_neg hfc, List.dropWhile_cons_of_neg hfc,
          ← List.cons_append, ← hbs, ← octets_append]
        exact ⟨rfl, rfl⟩

theorem asciiTest_of_false (h : ∀ c : Char, 128 ≤ c.toNat → f c = false) : AsciiTest f :=
  fun c d hc hd => (h c hc).trans (h d hd).symm

theorem asciiTest_ne {a : Char} (ha : a.toNat < 128) : AsciiTest (· != a) := by
  have hne : ∀ c : Char, 128 ≤ c.toNat → (c != a) = true := fun c hc =>
    bne_iff_ne.2 (ne_of_ascii ha hc)
  exact fun c d hc hd => (hne c hc).trans (hne d hd).symm

theorem breakAt_octets {a : Char} (ha : a.toNat < 128) (cs : List Char) :
    breakAt a (octets cs) = (breakAt a cs).map fun (b, r) => (octets b, octets r) := by
  obtain ⟨htake, hdrop⟩ := span_octets (asciiTest_ne ha) cs
  rw [breakAt, breakAt, htake, hdrop]
  cases h : cs.dropWhile (· != a) with
  | nil => rfl
  | cons d ds =>
    obtain rfl : d = a := by simpa [h] using List.head?_dropWhile_not (· != a) cs
    rw [octets_cons_of_ascii ha]
    rfl

/-! ## Slices -/

/-- Splits a text at an octet offset where a character begins, or at its end. -/
def splitAt? : Nat → List Char → Option (List Char × List Char)
  | 0, cs => some ([], cs)
  | _ + 1, [] => none
  | n + 1, c :: cs =>
    if c.utf8Size ≤ n + 1 then
      (splitAt? (n + 1 - c.utf8Size) cs).map fun (before, after) => (c :: before, after)
    else
      none

theorem splitAt?_eq_some {n : Nat} {cs before after : List Char} :
    splitAt? n cs = some (before, after) ↔ cs = before ++ after ∧ size before = n := by
  fun_induction splitAt? n cs generalizing before with
  | case1 cs =>
    constructor
    · rintro ⟨⟩
      exact ⟨rfl, rfl⟩
    · rintro ⟨rfl, hsize⟩
      cases before with
      | nil => rfl
      | cons c cs =>
        have hpos := c.utf8Size_pos
        rw [size_cons] at hsize
        omega
  | case2 n =>
    refine iff_of_false nofun ?_
    rintro ⟨hnil, hsize⟩
    obtain ⟨rfl, -⟩ := List.append_eq_nil_iff.1 hnil.symm
    cases hsize
  | case3 n c cs hle ih =>
    constructor
    · intro h
      obtain ⟨⟨b, a⟩, hb, he⟩ := Option.map_eq_some_iff.1 h
      obtain ⟨rfl, rfl⟩ : c :: b = before ∧ a = after := by simpa using he
      obtain ⟨rfl, hsize⟩ := ih.1 hb
      refine ⟨rfl, ?_⟩
      rw [size_cons]
      omega
    · rintro ⟨htext, hsize⟩
      cases before with
      | nil => cases hsize
      | cons d ds =>
        cases htext
        rw [size_cons] at hsize
        rw [ih.2 ⟨rfl, by omega⟩]
        rfl
  | case4 n c cs hle =>
    refine iff_of_false nofun ?_
    rintro ⟨htext, hsize⟩
    cases before with
    | nil => cases hsize
    | cons d ds =>
      cases htext
      rw [size_cons] at hsize
      omega

/-- The text between two octet offsets. -/
def slice? (cs : List Char) (start stop : Nat) : Option (List Char) :=
  if start ≤ stop then
    (splitAt? start cs).bind fun (_, rest) => (splitAt? (stop - start) rest).map Prod.fst
  else
    none

theorem slice?_eq_some {cs inside : List Char} {start stop : Nat} :
    slice? cs start stop = some inside ↔
      ∃ before after, cs = before ++ inside ++ after ∧ size before = start ∧
        size (before ++ inside) = stop := by
  unfold slice?
  constructor
  · intro h
    split_ifs at h with hle
    obtain ⟨⟨before, rest⟩, hbefore, h⟩ := Option.bind_eq_some_iff.1 h
    obtain ⟨⟨inside', after⟩, hinside, rfl⟩ := Option.map_eq_some_iff.1 h
    obtain ⟨rfl, hstart⟩ := splitAt?_eq_some.1 hbefore
    obtain ⟨rfl, hstop⟩ := splitAt?_eq_some.1 hinside
    refine ⟨before, after, (List.append_assoc _ _ _).symm, hstart, ?_⟩
    rw [size_append, hstart, hstop]
    omega
  · rintro ⟨before, after, rfl, rfl, rfl⟩
    have hrest : splitAt? (size before) (before ++ inside ++ after) =
        some (before, inside ++ after) :=
      splitAt?_eq_some.2 ⟨List.append_assoc _ _ _, rfl⟩
    have hinside : splitAt? (size (before ++ inside) - size before) (inside ++ after) =
        some (inside, after) :=
      splitAt?_eq_some.2 ⟨rfl, by simp⟩
    simp only [if_pos (show size before ≤ size (before ++ inside) by simp), hrest, Option.bind_some,
      hinside, Option.map_some]

end ForwardShading.Text
