import ForwardShading.Std140.Layout

/-!
# Writing uniform buffers

A value is a list of 32-bit words, column by column and element by element. Writing it stores each
word in little-endian order at the place of its component and leaves the padding as it is.
-/

namespace ForwardShading.Std140

/-- The bytes of a uniform buffer. -/
abbrev Buffer := Array UInt8

namespace Buffer

/-- Stores a word at a byte position, the low byte first. -/
def store (b : Buffer) (pos : Nat) (w : UInt32) : Buffer :=
  b.setIfInBounds pos w.toUInt8
    |>.setIfInBounds (pos + 1) (w >>> 8).toUInt8
    |>.setIfInBounds (pos + 2) (w >>> 16).toUInt8
    |>.setIfInBounds (pos + 3) (w >>> 24).toUInt8

@[simp]
theorem size_store (b : Buffer) (pos : Nat) (w : UInt32) : (b.store pos w).size = b.size := by
  simp [store]

/-- A buffer without bytes, in place of one that is to be filled anew. -/
def clear (b : Buffer) : Buffer :=
  b.take 0

/-- Cuts a buffer to a size, or fills it up to that with zeros. -/
def resize (b : Buffer) (size : Nat) : Buffer :=
  b.take size ++ Array.replicate (size - b.size) 0

@[simp]
theorem resize_clear (b : Buffer) (size : Nat) : b.clear.resize size = Array.replicate size 0 := by
  simp [clear, resize]

/-- The number whose bytes are given, the low byte first. -/
def value (bs : List UInt8) : Nat :=
  bs.foldr (fun b n => b.toNat + 256 * n) 0

/-- Splits bytes into words and the bytes of a last incomplete one. -/
def words : List UInt8 → List UInt32 × List UInt8
  | a :: b :: c :: d :: rest =>
    let (ws, tail) := words rest
    (UInt32.ofNat (value [a, b, c, d]) :: ws, tail)
  | tail => ([], tail)

end Buffer

namespace PlacedField

/-- The number of words that a field holds. -/
def capacity (f : PlacedField) : Nat :=
  f.elements * f.type.capacity

/-- The byte position of the `k`-th word of a value. -/
def position (f : PlacedField) (k : Nat) : Nat :=
  let element := k / f.type.capacity
  let column := k % f.type.capacity / f.type.components
  let component := k % f.type.components
  f.offset.toNat + element * f.stride.toNat + (column * 16 + component * 4)

/-- Stores words from the `k`-th place on. -/
def storeFrom (f : PlacedField) (b : Buffer) (k : Nat) : List UInt32 → Buffer
  | [] => b
  | w :: ws => f.storeFrom (b.store (f.position k) w) (k + 1) ws

end PlacedField

namespace Layout

/-- A buffer of a layout with zeros in it. -/
def zeros (l : Layout) : Buffer :=
  Array.replicate l.byteSize.toNat 0

/-- Writes a value at the named field, or nothing where the layout has no such field or the buffer
ends before it. Words beyond what the field holds are not used. -/
def write? (l : Layout) (b : Buffer) (name : String) (ws : List UInt32) : Option Buffer := do
  let f ← l.field? name
  if b.size < f.offset.toNat + f.byteSize.toNat then
    none
  else
    some (f.storeFrom b 0 (ws.take f.capacity))

end Layout

end ForwardShading.Std140
