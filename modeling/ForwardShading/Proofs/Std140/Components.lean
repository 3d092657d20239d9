import ForwardShading.Proofs.Std140.WriteOrder

/-!
# Components of a field

The words of a value go to the components of a field one by one: element by element, in an element
column by column, and in a column from the first component to the last, until there are no more words
or no more components (`PlacedField.storeAll?`).  No store leaves the buffer and no position is beyond
32-bit numbers, so this walk is the write of a layout (`PlacedField.storeAll?_components`), which
changes the bytes of these components and no others (`Layout.writeValue_components`).
-/

namespace ForwardShading

theorem UniformValue.words?_eq_none_iff (value : UniformValue) :
    value.words? = none ↔ ∃ t, value = .texture t := by
  cases value <;> simp [words?]

namespace Std140

/-- Entries of rows of one length, counted through. -/
theorem flatMap_range_map {α : Type} (m n : Nat) (g : Nat → Nat → α) :
    ((List.range m).flatMap fun i => (List.range n).map (g i)) =
      (List.range (m * n)).map fun k => g (k / n) (k % n) := by
  induction m with
  | zero => simp
  | succ m ih =>
    rw [List.range_succ, List.flatMap_append, ih, Nat.succ_mul, List.range_add, List.map_append,
      List.flatMap_singleton, List.map_map]
    congr 1
    refine List.map_congr_left fun j hj => ?_
    have hj : j < n := List.mem_range.1 hj
    rw [Function.comp_apply, Nat.mul_add_mod_self_right, Nat.mod_eq_of_lt hj, Nat.mul_comm,
      Nat.mul_add_div (Nat.zero_lt_of_lt hj), Nat.div_eq_of_lt hj, Nat.add_zero]

/-- Which component of a field: one of a column of an array element. -/
structure ComponentIndex where
  element : Nat
  column : Nat
  component : Nat
  deriving DecidableEq, Repr

/-- Stores a word in four bytes, which fails where they are not all in the buffer. -/
def Buffer.store? (b : Buffer) (pos : Nat) (w : UInt32) : Option Buffer :=
  if pos + 4 ≤ b.size then some (b.store pos w) else none

namespace PlacedField

variable (f : PlacedField)

/-- The components in the order in which a value fills them. -/
def components : List ComponentIndex :=
  (List.range f.elements).flatMap fun element =>
    (List.range f.type.columns).flatMap fun column =>
      (List.range f.type.components).map fun component => ⟨element, column, component⟩

/-- The byte position of a component. -/
def positionOf (c : ComponentIndex) : Nat :=
  f.offset.toNat + c.element * f.stride.toNat + c.column * 16 + c.component * 4

/-- The byte position of a component, computed with 32-bit words. -/
def positionOf? (c : ComponentIndex) : Option Nat := do
  let start ← ofNat? (c.element * f.stride.toNat)
  let inner ← ofNat? (c.column * 16 + c.component * 4)
  return f.offset.toNat + start.toNat + inner.toNat

/-- Stores words in components, one after the other, until there are no more of either. -/
def storeAll? (f : PlacedField) : List ComponentIndex → List UInt32 → Buffer → Option Buffer
  | c :: cs, w :: ws, b => do
    let pos ← f.positionOf? c
    f.storeAll? cs ws (← b.store? pos w)
  | _, _, b => some b

/-- The component that the `k`-th word of a value goes to. -/
def componentIndex (k : Nat) : ComponentIndex :=
  ⟨k / f.type.capacity, k % f.type.capacity / f.type.components,
    k % f.type.capacity % f.type.components⟩

theorem components_eq : f.components = (List.range f.capacity).map f.componentIndex := by
  simp only [components, flatMap_range_map]
  rfl

theorem length_components : f.components.length = f.capacity := by
  rw [components_eq, List.length_map, List.length_range]

theorem getElem?_components {k : Nat} (hk : k < f.capacity) :
    f.components[k]? = some (f.componentIndex k) := by
  rw [components_eq, List.getElem?_map, List.getElem?_range hk]
  rfl

theorem positionOf_componentIndex (k : Nat) : f.positionOf (f.componentIndex k) = f.position k := by
  rw [position_eq, Glsl.NumericType.componentOffset, ← Nat.add_assoc]
  rfl

section Store

variable {f} (hsize : f.byteSize.toNat = f.stride.toNat * f.elements)

include hsize

/-- No position in a field that has a size is beyond 32-bit numbers. -/
theorem positionOf?_componentIndex {k : Nat} (hk : k < f.capacity) :
    f.positionOf? (f.componentIndex k) = some (f.position k) := by
  have hend := f.position_add_four_le_end hk
  have hword := f.byteSize.toNat_lt_size
  rw [← positionOf_componentIndex] at hend ⊢
  generalize f.componentIndex k = c at hend ⊢
  unfold positionOf at hend ⊢
  have hstart : c.element * f.stride.toNat < UInt32.size := by omega
  have hinner : c.column * 16 + c.component * 4 < UInt32.size := by omega
  simp only [positionOf?, ofNat?, if_pos hstart, if_pos hinner, Option.bind_eq_bind,
    Option.bind_some, Option.pure_def, UInt32.toNat_ofNat_of_lt' hstart,
    UInt32.toNat_ofNat_of_lt' hinner, Nat.add_assoc]

/-- Words that are stored from a component on, with every position and every store checked. -/
theorem storeAll?_drop (b : Buffer) (k : Nat) (ws : List UInt32)
    (hb : f.offset.toNat + f.stride.toNat * f.elements ≤ b.size) :
    f.storeAll? (f.components.drop k) ws b = some (f.storeFrom b k (ws.take (f.capacity - k))) := by
  induction ws generalizing b k with
  | nil => rw [storeAll?, List.take_nil, storeFrom]; simp
  | cons w ws ih =>
    rcases Nat.lt_or_ge k f.capacity with hk | hk
    · have hdrop : f.components.drop k = f.componentIndex k :: f.components.drop (k + 1) := by
        obtain ⟨hlength, hget⟩ := List.getElem?_eq_some_iff.1 (f.getElem?_components hk)
        rw [List.drop_eq_getElem_cons hlength, hget]
      have hend := f.position_add_four_le_end hk
      have hstore : b.store? (f.position k) w = some (b.store (f.position k) w) :=
        if_pos (by omega)
      have hleft : f.capacity - k = f.capacity - (k + 1) + 1 := by omega
      rw [hdrop, storeAll?, positionOf?_componentIndex hsize hk, hleft, List.take_succ_cons, storeFrom]
      simp only [Option.bind_eq_bind, Option.bind_some, hstore]
      exact ih _ _ (by rwa [Buffer.size_store])
    · rw [List.drop_eq_nil_of_le (by rwa [length_components]), Nat.sub_eq_zero_of_le hk]
      rfl

theorem storeAll?_components (b : Buffer) (ws : List UInt32)
    (hb : f.offset.toNat + f.stride.toNat * f.elements ≤ b.size) :
    f.storeAll? f.components ws b = some (f.storeFrom b 0 (ws.take f.capacity)) :=
  storeAll?_drop hsize b 0 ws hb

end Store

end PlacedField

namespace Layout

variable {limit : UInt32} {fs : List Field} {l : Layout} {f : PlacedField} {b : Buffer} {name : String}
  {ws : List UInt32}

theorem write?_eq_none_iff : l.write? b name ws = none ↔
    l.field? name = none ∨
      ∃ f, l.field? name = some f ∧ b.size < f.offset.toNat + f.byteSize.toNat := by
  cases hf : l.field? name with
  | none => simp [write?, hf]
  | some f => simp [write?, hf]

/-- A value is refused if it is no number, or no field of the name lies in the buffer. -/
theorem accepts_eq_false_iff (l : Layout) (b : Buffer) (name : String) (value : UniformValue) :
    l.accepts b (name, value) = false ↔
      l.field? name = none ∨ (∃ t, value = .texture t) ∨
        ∃ f, l.field? name = some f ∧ b.size < f.offset.toNat + f.byteSize.toNat := by
  rw [accepts, Option.isSome_eq_false_iff, Option.isNone_iff_eq_none]
  cases hws : value.words? with
  | none => exact iff_of_true rfl (.inr (.inl (value.words?_eq_none_iff.1 hws)))
  | some ws =>
    have hvalue : ¬ ∃ t, value = .texture t := by
      rw [← value.words?_eq_none_iff, hws]
      exact Option.some_ne_none ws
    rw [Option.bind_some, write?_eq_none_iff, or_iff_right hvalue]

theorem exists_of_accepts {value : UniformValue} (h : l.accepts b (name, value) = true) :
    ∃ f ws, l.field? name = some f ∧ value.words? = some ws ∧
      f.offset.toNat + f.byteSize.toNat ≤ b.size ∧
      l.writeValue b (name, value) = f.storeFrom b 0 (ws.take f.capacity) := by
  obtain ⟨b', hb'⟩ := Option.isSome_iff_exists.1 h
  obtain ⟨ws, hws, hwrite⟩ := Option.bind_eq_some_iff.1 hb'
  have hsome : l.write? b name ws ≠ none := by simp [hwrite]
  rw [Ne, write?_eq_none_iff, not_or] at hsome
  obtain ⟨f, hf⟩ := Option.ne_none_iff_exists'.1 hsome.1
  have hb : f.offset.toNat + f.byteSize.toNat ≤ b.size :=
    Nat.not_lt.1 fun hlt => hsome.2 ⟨f, hf, hlt⟩
  refine ⟨f, ws, hf, hws, hb, ?_⟩
  rw [writeValue, hws, Option.bind_some, write?_eq_some hf hb, Option.getD_some]

theorem writeValue_of_not_accepts {e : String × UniformValue} (h : l.accepts b e = false) :
    l.writeValue b e = b := by
  rw [accepts, Option.isSome_eq_false_iff, Option.isNone_iff_eq_none] at h
  rw [writeValue, h]
  rfl

/-- A write answers whether it is accepted, and changes nothing where it is not.  Where it is, no store
leaves the buffer, each word of the value is held by its component as far as there are components, and
the bytes that belong to none of these stay as they are. -/
theorem writeValue_components (hl : ofFieldsWithin limit fs = .ok l) (b : Buffer) (name : String)
    (value : UniformValue) :
    (l.accepts b (name, value) = false ↔
      l.field? name = none ∨ (∃ t, value = .texture t) ∨
        ∃ f, l.field? name = some f ∧ b.size < f.offset.toNat + f.byteSize.toNat) ∧
    (l.accepts b (name, value) = false → l.writeValue b (name, value) = b) ∧
    (l.accepts b (name, value) = true →
      ∃ f ws, l.field? name = some f ∧ value.words? = some ws ∧
        f.storeAll? f.components ws b = some (l.writeValue b (name, value)) ∧
        (∀ k w, ws[k]? = some w → k < f.capacity →
          ∃ element column component, f.components[k]? = some ⟨element, column, component⟩ ∧
            (l.writeValue b (name, value)).wordAt?
              (f.offset.toNat + element * f.stride.toNat + column * 16 + component * 4) = some w) ∧
        ∀ q, (∀ k c, k < ws.length → f.components[k]? = some c →
            q < f.positionOf c ∨ f.positionOf c + 4 ≤ q) →
          (l.writeValue b (name, value))[q]? = b[q]?) := by
  refine ⟨l.accepts_eq_false_iff b name value, writeValue_of_not_accepts, fun haccepts => ?_⟩
  obtain ⟨f, ws, hf, hws, hb, hwrite⟩ := exists_of_accepts haccepts
  have hsize := (between_ofFieldsWithin hl).2.sized f (mem_of_field? hf).1
  have hend : f.offset.toNat + f.stride.toNat * f.elements ≤ b.size := by rwa [← hsize]
  refine ⟨f, ws, hf, hws, ?_, fun k w hk hcapacity => ?_, fun q hq => ?_⟩
  · rw [hwrite, f.storeAll?_components hsize b ws hend]
  · refine ⟨_, _, _, f.getElem?_components hcapacity, ?_⟩
    have hholds := f.holds_storeFrom b ws hend k w (by rwa [List.getElem?_take_of_lt hcapacity])
    rw [← f.positionOf_componentIndex] at hholds
    rwa [hwrite]
  · rw [hwrite]
    refine f.getElem?_storeFrom b fun j hj => ?_
    rw [List.length_take] at hj
    rw [Nat.zero_add, ← f.positionOf_componentIndex]
    exact hq j _ (by omega) (f.getElem?_components (by omega))

/-- The second of two words goes to the second element of an array, and its padding stays; a buffer
that ends before the array is refused. -/
theorem writeValue_components_packed :
    packed.accepts packed.zeros ("weights", .vec2 ⟨⟨1⟩, ⟨2⟩⟩) = true ∧
      (packed.writeValue packed.zeros ("weights", .vec2 ⟨⟨1⟩, ⟨2⟩⟩)).wordAt? 80 = some 2 ∧
      (packed.writeValue packed.zeros ("weights", .vec2 ⟨⟨1⟩, ⟨2⟩⟩))[84]? = some 0 ∧
      packed.accepts (Array.replicate 111 0) ("weights", .vec2 ⟨⟨1⟩, ⟨2⟩⟩) = false := by
  have hl : ofFieldsWithin 112 (packed.fields.map (·.toField)) = .ok packed := rfl
  have haccepts : packed.accepts packed.zeros ("weights", .vec2 ⟨⟨1⟩, ⟨2⟩⟩) = true := rfl
  obtain ⟨-, -, hwrites⟩ :=
    writeValue_components hl packed.zeros "weights" (.vec2 ⟨⟨1⟩, ⟨2⟩⟩)
  obtain ⟨f, ws, hf, hws, -, hholds, hkeeps⟩ := hwrites haccepts
  cases hf
  cases hws
  refine ⟨haccepts, ?_, ?_, ?_⟩
  · obtain ⟨element, column, component, hc, hword⟩ := hholds 1 2 rfl (by decide)
    cases hc
    exact hword
  · refine (hkeeps 84 fun k c hk hc => ?_).trans rfl
    rcases k with _ | _ | k
    · cases hc
      decide
    · cases hc
      decide
    · exact absurd (show k + 2 < 2 from hk) (by omega)
  · refine (writeValue_components hl _ _ _).1.2 (.inr (.inr ⟨_, rfl, ?_⟩))
    rw [Array.size_replicate]
    decide

end Layout

end Std140

end ForwardShading
