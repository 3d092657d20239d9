import ForwardShading.Device.UniformValue
import ForwardShading.Proofs.Std140.Write

/-!
# The order of writes

What a write leaves at a byte depends on that byte alone (`Layout.getElem?_writeValue_congr`), and
bytes outside of the named field stay as they are (`Layout.Sound.getElem?_writeValue`).  The fields
of a sound layout do not overlap, so writes to different names commute
(`Layout.Sound.writeValue_comm`), and a sequence of them may be put into any order
(`Layout.writeAll_permute`).
-/

namespace ForwardShading.Std140

namespace Buffer

theorem getElem?_setIfInBounds_congr {b b' : Buffer} (pos : Nat) (byte : UInt8) {q : Nat}
    (h : b[q]? = b'[q]?) :
    (b.setIfInBounds pos byte)[q]? = (b'.setIfInBounds pos byte)[q]? := by
  have hsize : b.size ≤ q ↔ b'.size ≤ q := by
    rw [← Array.getElem?_eq_none_iff, h, Array.getElem?_eq_none_iff]
  rw [Array.getElem?_setIfInBounds, Array.getElem?_setIfInBounds, h]
  by_cases hpos : pos = q
  · simp only [hpos, ← Nat.not_le, hsize]
  · rw [if_neg hpos, if_neg hpos]

theorem getElem?_store_congr {b b' : Buffer} (pos : Nat) (w : UInt32) {q : Nat}
    (h : b[q]? = b'[q]?) : (b.store pos w)[q]? = (b'.store pos w)[q]? := by
  unfold store
  iterate 4 refine getElem?_setIfInBounds_congr _ _ ?_
  exact h

end Buffer

namespace PlacedField

variable (f : PlacedField)

/-- The bytes that a read of the whole field covers, padding between its components included. -/
def Covers (q : Nat) : Prop :=
  f.offset.toNat ≤ q ∧ q < f.offset.toNat + f.byteSize.toNat

theorem getElem?_storeFrom_congr {b b' : Buffer} (k : Nat) (ws : List UInt32) {q : Nat}
    (h : b[q]? = b'[q]?) : (f.storeFrom b k ws)[q]? = (f.storeFrom b' k ws)[q]? := by
  induction ws generalizing b b' k with
  | nil => exact h
  | cons w ws ih => exact ih (k + 1) (Buffer.getElem?_store_congr _ w h)

/-- Stored words lie inside of their field. -/
theorem getElem?_storeFrom_of_not_covers (hsize : f.byteSize.toNat = f.stride.toNat * f.elements)
    (b : Buffer) (ws : List UInt32) {q : Nat} (hq : ¬ f.Covers q) :
    (f.storeFrom b 0 (ws.take f.capacity))[q]? = b[q]? := by
  refine f.getElem?_storeFrom b fun j hj => ?_
  rw [List.length_take] at hj
  have hstart := f.offset_le_position (0 + j)
  have hend := f.position_add_four_le_end (show 0 + j < f.capacity by omega)
  unfold Covers at hq
  omega

end PlacedField

namespace Layout

variable {l : Layout} {f g : PlacedField} {b b' : Buffer}

theorem Sound.not_covers (h : l.Sound) (hf : f ∈ l.fields) (hg : g ∈ l.fields)
    (hne : f.name ≠ g.name) {q : Nat} (hq : f.Covers q) : ¬ g.Covers q := by
  have hdisjoint := h.between.disjoint hf hg fun hfg => hne (by rw [hfg])
  unfold PlacedField.Covers at hq ⊢
  omega

/-- Writes a named value, if it is a number and the layout has a field for it. -/
def writeValue (l : Layout) (b : Buffer) (e : String × UniformValue) : Buffer :=
  (e.2.words?.bind (l.write? b e.1)).getD b

/-- Whether a named value is written: it is a number, and the layout has a field for it that lies in
the buffer. -/
def accepts (l : Layout) (b : Buffer) (e : String × UniformValue) : Bool :=
  (e.2.words?.bind (l.write? b e.1)).isSome

/-- Writes named values one after the other.  Each name is answered by whether it was written. -/
def writeAll (l : Layout) (b : Buffer) :
    List (String × UniformValue) → Buffer × List (String × Bool)
  | [] => (b, [])
  | e :: es =>
    let (last, answers) := l.writeAll (l.writeValue b e) es
    (last, (e.1, l.accepts b e) :: answers)

/-- A write either does nothing or stores the words of the value in the named field. -/
theorem writeValue_cases (l : Layout) (b : Buffer) (e : String × UniformValue) :
    l.writeValue b e = b ∨
      ∃ f ∈ l.fields, f.name = e.1 ∧ ∃ ws, e.2.words? = some ws ∧
        l.writeValue b e = f.storeFrom b 0 (ws.take f.capacity) := by
  unfold writeValue
  cases h : e.2.words?.bind (l.write? b e.1) with
  | none => exact .inl rfl
  | some b' =>
    obtain ⟨ws, hws, hw⟩ := Option.bind_eq_some_iff.1 h
    obtain ⟨f, hf, hname, rfl⟩ := eq_of_write?_eq_some hw
    exact .inr ⟨f, hf, hname, ws, hws, rfl⟩

@[simp]
theorem size_writeValue (l : Layout) (b : Buffer) (e : String × UniformValue) :
    (l.writeValue b e).size = b.size := by
  rcases l.writeValue_cases b e with h | ⟨f, -, -, ws, -, h⟩
  · rw [h]
  · rw [h, f.size_storeFrom]

@[simp]
theorem size_foldl_writeValue (l : Layout) (b : Buffer) (es : List (String × UniformValue)) :
    (es.foldl l.writeValue b).size = b.size := by
  induction es generalizing b with
  | nil => rfl
  | cons e es ih => rw [List.foldl_cons, ih, size_writeValue]

/-! ## One write -/

/-- Whether a value is written does not depend on what the buffer holds. -/
theorem accepts_congr (l : Layout) (e : String × UniformValue) (hsize : b.size = b'.size) :
    l.accepts b e = l.accepts b' e := by
  unfold accepts
  cases e.2.words? with
  | none => rfl
  | some ws =>
    cases hf : l.field? e.1 with
    | none => simp [write?, hf]
    | some f =>
      by_cases hb : b'.size < f.offset.toNat + f.byteSize.toNat <;> simp [write?, hf, hsize, hb]

/-- What a write leaves at a byte depends on that byte alone. -/
theorem getElem?_writeValue_congr (l : Layout) (e : String × UniformValue)
    (hsize : b.size = b'.size) {q : Nat} (h : b[q]? = b'[q]?) :
    (l.writeValue b e)[q]? = (l.writeValue b' e)[q]? := by
  unfold writeValue
  cases e.2.words? with
  | none => exact h
  | some ws =>
    cases hf : l.field? e.1 with
    | none => simpa [write?, hf] using h
    | some f =>
      have hstored := f.getElem?_storeFrom_congr 0 (ws.take f.capacity) h
      by_cases hb : b'.size < f.offset.toNat + f.byteSize.toNat
      · simpa [write?, hf, hsize, hb] using h
      · simpa [write?, hf, hsize, hb] using hstored

theorem Sound.getElem?_writeValue_of_not_covers (h : l.Sound) (b : Buffer)
    (e : String × UniformValue) {q : Nat} (hq : ∀ f ∈ l.fields, f.name = e.1 → ¬ f.Covers q) :
    (l.writeValue b e)[q]? = b[q]? := by
  rcases l.writeValue_cases b e with he | ⟨f, hf, hname, ws, -, he⟩
  · rw [he]
  · rw [he]
    exact f.getElem?_storeFrom_of_not_covers (h.between.sized f hf) b ws (hq f hf hname)

/-- A write to one name changes no byte that a read of another field covers. -/
theorem Sound.getElem?_writeValue (h : l.Sound) (hg : g ∈ l.fields) (b : Buffer)
    {e : String × UniformValue} (hne : g.name ≠ e.1) {q : Nat} (hq : g.Covers q) :
    (l.writeValue b e)[q]? = b[q]? :=
  h.getElem?_writeValue_of_not_covers b e fun _f hf hname =>
    h.not_covers hg hf (by rwa [hname]) hq

theorem Sound.writeValue_comm (h : l.Sound) (b : Buffer) {d e : String × UniformValue}
    (hne : d.1 ≠ e.1) :
    l.writeValue (l.writeValue b d) e = l.writeValue (l.writeValue b e) d := by
  refine Array.ext_getElem? fun q => ?_
  -- A byte belongs to at most one of the two names, and the other write leaves it alone.
  by_cases hd : ∃ f ∈ l.fields, f.name = d.1 ∧ f.Covers q
  · obtain ⟨f, hf, hname, hq⟩ := hd
    have hkeep : ∀ b, (l.writeValue b e)[q]? = b[q]? := fun b =>
      h.getElem?_writeValue hf b (by rwa [hname]) hq
    rw [hkeep]
    exact l.getElem?_writeValue_congr d (size_writeValue l b e).symm (hkeep b).symm
  · have hkeep : ∀ b, (l.writeValue b d)[q]? = b[q]? := fun b =>
      h.getElem?_writeValue_of_not_covers b d fun f hf hname hq => hd ⟨f, hf, hname, hq⟩
    rw [hkeep]
    exact l.getElem?_writeValue_congr e (size_writeValue l b d) (hkeep b)

/-- In a buffer that holds the whole layout, every number that has a field is written. -/
theorem Sound.accepts_eq_true (h : l.Sound) (hf : f ∈ l.fields) (hb : l.byteSize.toNat ≤ b.size)
    {value : UniformValue} {ws : List UInt32} (hws : value.words? = some ws) :
    l.accepts b (f.name, value) = true := by
  rw [accepts, hws, Option.bind_some,
    write?_eq_some (h.field?_eq_some hf) (Nat.le_trans (h.between.inside f hf) hb)]
  rfl

/-! ## Sequences of writes -/

theorem writeAll_eq (l : Layout) (b : Buffer) (es : List (String × UniformValue)) :
    l.writeAll b es = (es.foldl l.writeValue b, es.map fun e => (e.1, l.accepts b e)) := by
  induction es generalizing b with
  | nil => rfl
  | cons e es ih =>
    have hanswers : es.map (fun d => (d.1, l.accepts (l.writeValue b e) d)) =
        es.map fun d => (d.1, l.accepts b d) :=
      List.map_congr_left fun d _ => by rw [l.accepts_congr d (size_writeValue l b e)]
    rw [writeAll, ih, hanswers]
    rfl

/-- Values that are no numbers, or have other names, leave a field as it is. -/
theorem Sound.wordAt?_foldl_writeValue (h : l.Sound) (hf : f ∈ l.fields)
    {es : List (String × UniformValue)} (hes : ∀ e ∈ es, e.1 = f.name → e.2.words? = none)
    (b : Buffer) {k : Nat} (hk : k < f.capacity) :
    (es.foldl l.writeValue b).wordAt? (f.position k) = b.wordAt? (f.position k) := by
  induction es generalizing b with
  | nil => rfl
  | cons e es ih =>
    obtain ⟨he, hes⟩ := List.forall_mem_cons.1 hes
    rw [List.foldl_cons, ih hes, writeValue]
    cases hw : e.2.words?.bind (l.write? b e.1) with
    | none => rfl
    | some b' =>
      obtain ⟨ws, hws, hw⟩ := Option.bind_eq_some_iff.1 hw
      refine h.wordAt?_of_write?_eq_some hf (fun hname => ?_) hw hk
      rw [he hname.symm] at hws
      cases hws

/-- A field holds the last number written under its name. -/
theorem Sound.holds_foldl_writeValue (h : l.Sound) (hf : f ∈ l.fields)
    {as bs : List (String × UniformValue)} {value : UniformValue} {ws : List UInt32}
    (hvalue : value.words? = some ws) (hbs : ∀ e ∈ bs, e.1 = f.name → e.2.words? = none)
    (hb : l.byteSize.toNat ≤ b.size) :
    f.Holds ((as ++ (f.name, value) :: bs).foldl l.writeValue b) ws := by
  have hsize : l.byteSize.toNat ≤ (as.foldl l.writeValue b).size := by
    rwa [size_foldl_writeValue]
  have hwrite := write?_eq_some (h.field?_eq_some hf) (Nat.le_trans (h.between.inside f hf) hsize) ws
  have hholds := h.holds_of_write?_eq_some hf hsize hwrite
  intro k w hk
  have hcapacity : k < f.capacity := by
    have := (List.getElem?_eq_some_iff.1 hk).1
    rw [List.length_take] at this
    omega
  rw [List.foldl_append, List.foldl_cons, h.wordAt?_foldl_writeValue hf hbs _ hcapacity, writeValue,
    hvalue, Option.bind_some, hwrite, Option.getD_some]
  exact hholds k w hk

theorem Sound.foldl_writeValue_perm (h : l.Sound) {es es' : List (String × UniformValue)}
    (hperm : es.Perm es') (hnodup : (es.map (·.1)).Nodup) (b : Buffer) :
    es.foldl l.writeValue b = es'.foldl l.writeValue b := by
  refine hperm.foldl_eq' (fun d hd e he b => ?_) b
  by_cases hde : d = e
  · rw [hde]
  · exact h.writeValue_comm b fun hname => hde (List.inj_on_of_nodup_map hnodup hd he hname)

/-- Writes to different names of a layout do not see each other: in either order they leave the same
buffer and have the same answers, and neither changes what a read of the other's field covers.  So a
sequence of writes to different names may be put into any order.  In a buffer that holds the whole
layout, each number in the sequence is written, and held by its field in the end. -/
theorem writeAll_permute {limit : UInt32} {fs : List Field} (hnames : (fs.map (·.name)).Nodup)
    (hl : ofFieldsWithin limit fs = .ok l) (hb : l.byteSize.toNat ≤ b.size) :
    (∀ f ∈ l.fields, ∀ g ∈ l.fields, f.name ≠ g.name → ∀ v w : UniformValue,
      l.writeValue (l.writeValue b (f.name, v)) (g.name, w) =
          l.writeValue (l.writeValue b (g.name, w)) (f.name, v) ∧
        l.accepts (l.writeValue b (f.name, v)) (g.name, w) = l.accepts b (g.name, w) ∧
        ∀ q, g.Covers q → (l.writeValue b (f.name, v))[q]? = b[q]?) ∧
      ∀ es es' : List (String × UniformValue), es.Perm es' → (es.map (·.1)).Nodup →
        (l.writeAll b es).1 = (l.writeAll b es').1 ∧
          (l.writeAll b es).2.Perm (l.writeAll b es').2 ∧
          ∀ f ∈ l.fields, ∀ v, (f.name, v) ∈ es → ∀ ws, v.words? = some ws →
            (f.name, true) ∈ (l.writeAll b es).2 ∧ f.Holds (l.writeAll b es).1 ws := by
  have h := sound_ofFieldsWithin hnames hl
  refine ⟨fun f _ g hg hne v w => ⟨h.writeValue_comm b hne, ?_, fun q hq => ?_⟩,
    fun es es' hperm hnodup => ?_⟩
  · exact l.accepts_congr _ (size_writeValue l b _)
  · exact h.getElem?_writeValue hg b (Ne.symm hne) hq
  · simp only [writeAll_eq]
    refine ⟨h.foldl_writeValue_perm hperm hnodup b, hperm.map _, fun f hf v hv ws hws => ⟨?_, ?_⟩⟩
    · rw [← h.accepts_eq_true hf hb hws]
      exact List.mem_map_of_mem hv
    · obtain ⟨as, bs, rfl⟩ := List.append_of_mem hv
      refine h.holds_foldl_writeValue hf hws (fun e he hname => ?_) hb
      rw [List.map_append, List.map_cons, List.nodup_append, List.nodup_cons] at hnodup
      exact absurd (List.mem_map.2 ⟨e, he, hname⟩) hnodup.2.1.1

/-- A vector with a scalar in its tail, a matrix with padded columns and an array with padded
elements. -/
def packed : Layout where
  fields :=
    [⟨⟨"color", .vector .float .three, 0⟩, 0⟩, ⟨⟨"gloss", .scalar .int, 0⟩, 12⟩,
      ⟨⟨"basis", .matrix .three, 0⟩, 16⟩, ⟨⟨"weights", .scalar .float, 3⟩, 64⟩]
  byteSize := 112

theorem writeAll_permute_packed :
    ((packed.fields.map (·.toField)).map (·.name)).Nodup ∧
      ofFieldsWithin 112 (packed.fields.map (·.toField)) = .ok packed ∧
      packed.byteSize.toNat ≤ packed.zeros.size ∧
      (∀ q, 12 ≤ q ∧ q < 16 →
        (packed.writeValue packed.zeros ("color", .vec3 ⟨⟨1⟩, ⟨2⟩, ⟨3⟩⟩))[q]? = packed.zeros[q]?) ∧
      (packed.writeAll packed.zeros [("color", .vec3 ⟨⟨1⟩, ⟨2⟩, ⟨3⟩⟩), ("gloss", .int 4)]).1 =
        (packed.writeAll packed.zeros [("gloss", .int 4), ("color", .vec3 ⟨⟨1⟩, ⟨2⟩, ⟨3⟩⟩)]).1 := by
  have hnames : ((packed.fields.map (·.toField)).map (·.name)).Nodup := by decide
  have hl : ofFieldsWithin 112 (packed.fields.map (·.toField)) = .ok packed := rfl
  have hb : packed.byteSize.toNat ≤ packed.zeros.size := Nat.le_of_eq packed.size_zeros.symm
  obtain ⟨hpair, hperm⟩ := writeAll_permute hnames hl hb
  refine ⟨hnames, hl, hb, fun q hq => ?_, ?_⟩
  · have hcolor := hpair _ List.mem_cons_self _ (List.mem_cons_of_mem _ List.mem_cons_self)
      (by decide) (.vec3 ⟨⟨1⟩, ⟨2⟩, ⟨3⟩⟩) (.int 4)
    exact hcolor.2.2 q hq
  · exact (hperm _ _ (.swap _ _ _) (by decide)).1

end Layout

end ForwardShading.Std140
