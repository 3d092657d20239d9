import ForwardShading.Std140.Buffer
import ForwardShading.Proofs.Keys
import ForwardShading.Proofs.Std140.Placement

/-!
# What a write stores

The components of a field have places that ascend by at least four bytes and end within the field
(`PlacedField.position_add_four_le`, `PlacedField.position_add_four_le_end`).  So a value that is
written can be read back word by word (`PlacedField.holds_storeFrom`), and bytes outside of the
field stay as they are (`PlacedField.getElem?_storeFrom`).
-/

namespace ForwardShading

namespace Glsl.NumericType

variable (t : NumericType)

/-- The distance of the `n`-th component from the beginning of its element. -/
def componentOffset (n : Nat) : Nat :=
  n / t.components * 16 + n % t.components * 4

theorem components_cases :
    t.components = 1 ∨ t.components = 2 ∨ t.components = 3 ∨ t.components = 4 := by
  rcases t with c | ⟨c, n⟩ | n
  · exact .inl rfl
  · cases n <;> simp [components, Extent.size]
  · cases n <;> simp [components, Extent.size]

theorem capacity_pos : 0 < t.capacity := by
  rcases t with c | ⟨c, n⟩ | n
  · exact Nat.one_pos
  · cases n <;> exact Nat.succ_pos _
  · cases n <;> exact Nat.succ_pos _

theorem componentOffset_add_four_le {m n : Nat} (h : m < n) :
    t.componentOffset m + 4 ≤ t.componentOffset n := by
  unfold componentOffset
  rcases t.components_cases with hc | hc | hc | hc <;> rw [hc] <;> omega

theorem componentOffset_add_four_le_byteSize {n : Nat} (h : n < t.capacity) :
    t.componentOffset n + 4 ≤ t.byteSize.toNat := by
  rcases t with c | ⟨c, e⟩ | e
  · have hn : n = 0 := Nat.lt_one_iff.1 h
    subst hn
    simp [componentOffset, byteSize]
  · cases e <;> simp only [capacity, columns, components, Extent.size] at h <;>
      simp [componentOffset, components, byteSize, Extent.size] <;> omega
  · cases e <;> simp only [capacity, columns, components, Extent.size] at h <;>
      simp [componentOffset, components, byteSize, Extent.size] <;> omega

end Glsl.NumericType

namespace Std140

namespace Buffer

/-- The word at a byte position, the low byte first. -/
def wordAt? (b : Buffer) (pos : Nat) : Option UInt32 := do
  let b₀ ← b[pos]?
  let b₁ ← b[pos + 1]?
  let b₂ ← b[pos + 2]?
  let b₃ ← b[pos + 3]?
  return .ofNat (value [b₀, b₁, b₂, b₃])

theorem wordAt?_congr {b b' : Buffer} {pos : Nat}
    (h : ∀ q, pos ≤ q → q < pos + 4 → b[q]? = b'[q]?) : b.wordAt? pos = b'.wordAt? pos := by
  unfold wordAt?
  rw [h pos (by omega) (by omega), h (pos + 1) (by omega) (by omega),
    h (pos + 2) (by omega) (by omega), h (pos + 3) (by omega) (by omega)]

theorem value_bytes (w : UInt32) :
    value [w.toUInt8, (w >>> 8).toUInt8, (w >>> 16).toUInt8, (w >>> 24).toUInt8] = w.toNat := by
  have hw := w.toNat_lt
  simp [value, UInt32.toNat_shiftRight, Nat.shiftRight_eq_div_pow]
  omega

theorem getElem?_store_of_outside (b : Buffer) (w : UInt32) {pos q : Nat}
    (h : q < pos ∨ pos + 4 ≤ q) : (b.store pos w)[q]? = b[q]? := by
  simp only [store, Array.getElem?_setIfInBounds]
  rw [if_neg (by omega), if_neg (by omega), if_neg (by omega), if_neg (by omega)]

theorem wordAt?_store_self (b : Buffer) (w : UInt32) {pos : Nat} (h : pos + 4 ≤ b.size) :
    (b.store pos w).wordAt? pos = some w := by
  have h₀ : (b.store pos w)[pos]? = some w.toUInt8 := by
    simp [store, Array.getElem?_setIfInBounds]
    omega
  have h₁ : (b.store pos w)[pos + 1]? = some (w >>> 8).toUInt8 := by
    simp [store, Array.getElem?_setIfInBounds]
    omega
  have h₂ : (b.store pos w)[pos + 2]? = some (w >>> 16).toUInt8 := by
    simp [store, Array.getElem?_setIfInBounds]
    omega
  have h₃ : (b.store pos w)[pos + 3]? = some (w >>> 24).toUInt8 := by
    simp [store, Array.getElem?_setIfInBounds]
    omega
  simp only [wordAt?, h₀, h₁, h₂, h₃, Option.bind_eq_bind, Option.bind_some, value_bytes,
    UInt32.ofNat_toNat, Option.pure_def]

end Buffer

namespace PlacedField

variable (f : PlacedField)

theorem byteSize_le_stride : f.type.byteSize.toNat ≤ f.stride.toNat := by
  unfold Field.stride
  split
  · exact Nat.le_refl _
  · rcases f.type with c | ⟨c, n⟩ | n
    · exact (by decide : 4 ≤ (UInt32.ofNat (roundUp 4 16)).toNat)
    · cases n
      · exact (by decide : 8 ≤ (UInt32.ofNat (roundUp 8 16)).toNat)
      · exact (by decide : 12 ≤ (UInt32.ofNat (roundUp 12 16)).toNat)
      · exact (by decide : 16 ≤ (UInt32.ofNat (roundUp 16 16)).toNat)
    · cases n
      · exact (by decide : 32 ≤ (UInt32.ofNat (roundUp 32 16)).toNat)
      · exact (by decide : 48 ≤ (UInt32.ofNat (roundUp 48 16)).toNat)
      · exact (by decide : 64 ≤ (UInt32.ofNat (roundUp 64 16)).toNat)

theorem position_eq (k : Nat) :
    f.position k = f.offset.toNat + k / f.type.capacity * f.stride.toNat +
      f.type.componentOffset (k % f.type.capacity) := by
  have hdvd : f.type.components ∣ f.type.capacity := Nat.dvd_mul_left _ _
  rw [position, Glsl.NumericType.componentOffset, Nat.mod_mod_of_dvd _ hdvd]

/-- Components do not overlap, and their places ascend. -/
theorem position_add_four_le {j k : Nat} (h : j < k) : f.position j + 4 ≤ f.position k := by
  have hpos := f.type.capacity_pos
  have hsize := f.byteSize_le_stride
  have hj := f.type.componentOffset_add_four_le_byteSize (Nat.mod_lt j hpos)
  rw [position_eq, position_eq]
  -- Within one element the components ascend, and a whole element lies between different ones.
  by_cases he : j / f.type.capacity = k / f.type.capacity
  · have hmod : j % f.type.capacity < k % f.type.capacity := by
      have hj := Nat.div_add_mod j f.type.capacity
      have hk := Nat.div_add_mod k f.type.capacity
      rw [he] at hj
      omega
    have := f.type.componentOffset_add_four_le hmod
    rw [he]
    omega
  · have hlt : j / f.type.capacity + 1 ≤ k / f.type.capacity :=
      Nat.lt_of_le_of_ne (Nat.div_le_div_right (Nat.le_of_lt h)) he
    have hmul := Nat.mul_le_mul_right f.stride.toNat hlt
    rw [Nat.add_mul, Nat.one_mul] at hmul
    omega

theorem position_add_four_le_end {k : Nat} (h : k < f.capacity) :
    f.position k + 4 ≤ f.offset.toNat + f.stride.toNat * f.elements := by
  have hpos := f.type.capacity_pos
  have hsize := f.byteSize_le_stride
  have hk := f.type.componentOffset_add_four_le_byteSize (Nat.mod_lt k hpos)
  have hlt : k / f.type.capacity + 1 ≤ f.elements := (Nat.div_lt_iff_lt_mul hpos).2 h
  have hmul := Nat.mul_le_mul_right f.stride.toNat hlt
  rw [Nat.add_mul, Nat.one_mul, Nat.mul_comm f.elements] at hmul
  rw [position_eq]
  omega

theorem offset_le_position (k : Nat) : f.offset.toNat ≤ f.position k := by
  rw [position_eq]
  omega

@[simp]
theorem size_storeFrom (b : Buffer) (k : Nat) (ws : List UInt32) :
    (f.storeFrom b k ws).size = b.size := by
  induction ws generalizing b k with
  | nil => rfl
  | cons w ws ih => rw [storeFrom, ih, Buffer.size_store]

/-- Bytes that belong to none of the stored components stay as they are. -/
theorem getElem?_storeFrom (b : Buffer) {k q : Nat} {ws : List UInt32}
    (h : ∀ j < ws.length, q < f.position (k + j) ∨ f.position (k + j) + 4 ≤ q) :
    (f.storeFrom b k ws)[q]? = b[q]? := by
  induction ws generalizing b k with
  | nil => rfl
  | cons w ws ih =>
    have hrest : ∀ j < ws.length, q < f.position (k + 1 + j) ∨ f.position (k + 1 + j) + 4 ≤ q := by
      intro j hj
      rw [Nat.add_right_comm]
      exact h (j + 1) (Nat.succ_lt_succ hj)
    rw [storeFrom, ih _ hrest]
    exact b.getElem?_store_of_outside w (h 0 (Nat.succ_pos _))

/-- Stored words are read back at the places of their components. -/
theorem wordAt?_storeFrom (b : Buffer) {k j : Nat} {ws : List UInt32} {w : UInt32}
    (hb : f.offset.toNat + f.stride.toNat * f.elements ≤ b.size)
    (hk : k + ws.length ≤ f.capacity) (hj : ws[j]? = some w) :
    (f.storeFrom b k ws).wordAt? (f.position (k + j)) = some w := by
  induction ws generalizing b k j with
  | nil => cases hj
  | cons v ws ih =>
    rw [List.length_cons] at hk
    rw [storeFrom]
    cases j with
    | zero =>
      cases hj
      have hend := f.position_add_four_le_end (show k < f.capacity by omega)
      show (f.storeFrom _ (k + 1) ws).wordAt? (f.position k) = some w
      rw [← b.wordAt?_store_self w (show f.position k + 4 ≤ b.size by omega)]
      refine Buffer.wordAt?_congr fun q hle hlt => f.getElem?_storeFrom _ fun i _ => ?_
      have := f.position_add_four_le (show k < k + 1 + i by omega)
      omega
    | succ j =>
      rw [show k + (j + 1) = k + 1 + j by omega]
      exact ih (b.store (f.position k) v) (by rwa [Buffer.size_store]) (by omega) hj

/-- Whether the field holds the words, as many of them as it has components. -/
def Holds (b : Buffer) (ws : List UInt32) : Prop :=
  ∀ k w, (ws.take f.capacity)[k]? = some w → b.wordAt? (f.position k) = some w

theorem holds_storeFrom (b : Buffer) (ws : List UInt32)
    (hb : f.offset.toNat + f.stride.toNat * f.elements ≤ b.size) :
    f.Holds (f.storeFrom b 0 (ws.take f.capacity)) ws := by
  intro k w hk
  have hlength : 0 + (ws.take f.capacity).length ≤ f.capacity := by
    rw [List.length_take]
    omega
  simpa using f.wordAt?_storeFrom b hb hlength hk

end PlacedField

namespace Layout

/-- A layout whose fields have different names and stand one behind the other in the buffer. -/
structure Sound (l : Layout) : Prop where
  names : (l.fields.map (·.name)).Nodup
  between : Between 0 l.byteSize.toNat l.fields

variable {l : Layout} {f g : PlacedField} {b : Buffer} {name : String} {ws : List UInt32}

theorem sound_ofFieldsWithin {limit : UInt32} {fs : List Field} (hn : (fs.map (·.name)).Nodup)
    (h : ofFieldsWithin limit fs = .ok l) : l.Sound := by
  obtain ⟨hplaced, hbetween⟩ := between_ofFieldsWithin h
  refine ⟨?_, hbetween⟩
  have hnames : l.fields.map (·.name) = (orPlaceholder fs).map (·.name) := by
    rw [← hplaced, List.map_map]
    rfl
  rw [hnames]
  cases fs with
  | nil => exact List.nodup_singleton _
  | cons f fs => exact hn

theorem mem_of_field? (h : l.field? name = some f) : f ∈ l.fields ∧ f.name = name :=
  ⟨List.mem_of_find?_eq_some h, by simpa using List.find?_some h⟩

theorem Sound.field?_eq_some (h : l.Sound) (hf : f ∈ l.fields) : l.field? f.name = some f :=
  (find?_key_eq_some h.names).2 ⟨hf, rfl⟩

/-- The end of a field is where its last element ends. -/
theorem Sound.end_le (h : l.Sound) (hf : f ∈ l.fields) :
    f.offset.toNat + f.stride.toNat * f.elements ≤ l.byteSize.toNat := by
  rw [← h.between.sized f hf]
  exact h.between.inside f hf

theorem write?_eq_some (hf : l.field? name = some f)
    (hb : f.offset.toNat + f.byteSize.toNat ≤ b.size) (ws : List UInt32) :
    l.write? b name ws = some (f.storeFrom b 0 (ws.take f.capacity)) := by
  simp only [write?, hf, Option.bind_eq_bind, Option.bind_some]
  rw [if_neg (by omega)]

/-- What a write gives is the buffer with the words of the named field stored. -/
theorem eq_of_write?_eq_some {b' : Buffer} (h : l.write? b name ws = some b') :
    ∃ f ∈ l.fields, f.name = name ∧ b' = f.storeFrom b 0 (ws.take f.capacity) := by
  simp only [write?, Option.bind_eq_bind, Option.bind_eq_some_iff] at h
  obtain ⟨f, hf, h⟩ := h
  by_cases hb : b.size < f.offset.toNat + f.byteSize.toNat
  · rw [if_pos hb] at h
    cases h
  · rw [if_neg hb] at h
    cases h
    exact ⟨f, (mem_of_field? hf).1, (mem_of_field? hf).2, rfl⟩

/-- A write to one field leaves the words of the others as they are. -/
theorem Sound.wordAt?_of_write?_eq_some (h : l.Sound) {b' : Buffer} (hg : g ∈ l.fields)
    (hne : g.name ≠ name) (hw : l.write? b name ws = some b') {k : Nat} (hk : k < g.capacity) :
    b'.wordAt? (g.position k) = b.wordAt? (g.position k) := by
  obtain ⟨f, hf, rfl, rfl⟩ := eq_of_write?_eq_some hw
  have hfg := h.between.disjoint hg hf fun hfg => hne (by rw [hfg])
  rw [h.between.sized g hg, h.between.sized f hf] at hfg
  have hgstart := g.offset_le_position k
  have hgend := g.position_add_four_le_end hk
  refine Buffer.wordAt?_congr fun q hle hlt => f.getElem?_storeFrom b fun j hj => ?_
  rw [List.length_take] at hj
  have hfstart := f.offset_le_position (0 + j)
  have hfend := f.position_add_four_le_end (show 0 + j < f.capacity by omega)
  omega

/-- A field holds what is written to it. -/
theorem Sound.holds_of_write?_eq_some (h : l.Sound) {b' : Buffer} (hf : f ∈ l.fields)
    (hb : l.byteSize.toNat ≤ b.size) (hw : l.write? b f.name ws = some b') : f.Holds b' ws := by
  have hend := h.end_le hf
  rw [write?_eq_some (h.field?_eq_some hf) (Nat.le_trans (h.between.inside f hf) hb)] at hw
  cases hw
  exact f.holds_storeFrom b ws (Nat.le_trans hend hb)

theorem size_zeros (l : Layout) : l.zeros.size = l.byteSize.toNat :=
  Array.size_replicate

theorem wordAt?_zeros {pos : Nat} (h : pos + 4 ≤ l.byteSize.toNat) :
    l.zeros.wordAt? pos = some 0 := by
  have hzero : ∀ q, q < l.byteSize.toNat → l.zeros[q]? = some 0 := fun q hq => by
    rw [zeros, Array.getElem?_replicate, if_pos hq]
  simp only [Buffer.wordAt?, hzero pos (by omega), hzero (pos + 1) (by omega),
    hzero (pos + 2) (by omega), hzero (pos + 3) (by omega)]
  rfl

end Layout

end Std140

end ForwardShading
