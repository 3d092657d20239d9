import ForwardShading.Glsl.NumericType
import ForwardShading.Std140.Bounded

/-!
# Uniform buffer layouts

The std140 layout of a list of numeric uniforms: each at the first multiple of its alignment behind
the one before, the whole rounded up to a multiple of 16 bytes. All sizes are 32-bit words, and a
layout may have to stay within a given number of bytes.
-/

namespace ForwardShading

namespace Glsl.NumericType

/-- The alignment in bytes of a single value. -/
def alignment : NumericType → UInt32
  | scalar _ => 4
  | vector _ .two => 8
  | _ => 16

/-- The size in bytes of a single value. The columns of a matrix are padded to four components. -/
def byteSize : NumericType → UInt32
  | scalar _ => 4
  | vector _ n => UInt32.ofNat (4 * n.size)
  | matrix n => UInt32.ofNat (16 * n.size)

end Glsl.NumericType

namespace Std140

open Glsl (NumericType)

/-- A uniform of a buffer. -/
structure Field where
  name : String
  type : NumericType
  /-- The number of array elements, zero for a uniform that is not an array. -/
  count : UInt32
  deriving DecidableEq, Repr

namespace Field

/-- The alignment in bytes. Arrays begin at a multiple of 16. -/
def alignment (f : Field) : UInt32 :=
  if f.count = 0 then f.type.alignment else 16

/-- The distance in bytes from an element to the next one, which is a multiple of 16 in an array. -/
def stride (f : Field) : UInt32 :=
  if f.count = 0 then f.type.byteSize else UInt32.ofNat (roundUp f.type.byteSize.toNat 16)

/-- The number of elements, one for a uniform that is not an array. -/
def elements (f : Field) : Nat :=
  max f.count.toNat 1

/-- The size in bytes, if it fits in 32 bits. -/
def byteSize? (f : Field) : Option UInt32 :=
  ofNat? (f.stride.toNat * f.elements)

/-- The size in bytes, the greatest 32-bit number if it does not fit. -/
def byteSize (f : Field) : UInt32 :=
  f.byteSize?.getD 0xFFFFFFFF

/-- Where a field goes when the fields before it end at `cursor`. -/
def offset? (f : Field) (cursor : UInt32) : Option UInt32 :=
  ofNat? (roundUp cursor.toNat f.alignment.toNat)

/-- Where a field at an offset ends, if that is at most `limit`. -/
def end? (f : Field) (limit offset : UInt32) : Option UInt32 := do
  let size ← f.byteSize?
  let stop ← ofNat? (offset.toNat + size.toNat)
  if stop ≤ limit then some stop else none

end Field

/-- A field with its offset in bytes. -/
structure PlacedField extends Field where
  offset : UInt32
  deriving DecidableEq, Repr

/-- Places fields behind `cursor`. The result is the size of the buffer, or the name of the first
field that ends past `limit`; `last` is the field before, to which an overlong rounded size counts.
Fields that have no place get the offset zero. -/
def place (limit cursor : UInt32) (last : String) :
    List Field → List PlacedField × Except String UInt32
  | [] =>
    match ofNat? (roundUp cursor.toNat 16) with
    | some size => ([], if size ≤ limit then .ok size else .error last)
    | none => ([], .error last)
  | f :: fs =>
    match f.offset? cursor with
    | none => ((f :: fs).map (⟨·, 0⟩), .error f.name)
    | some offset =>
      match f.end? limit offset with
      | none => (⟨f, offset⟩ :: fs.map (⟨·, 0⟩), .error f.name)
      | some stop =>
        let (placed, size) := place limit stop f.name fs
        (⟨f, offset⟩ :: placed, size)

/-- The name of the field that stands in for the fields of an empty buffer. -/
def placeholderName : String :=
  "_unused_float_uniform"

/-- The field that stands in for the fields of an empty buffer, which keeps the buffer bindable. -/
def placeholder : Field :=
  ⟨placeholderName, .scalar .float, 0⟩

/-- The fields of a buffer that is never empty. -/
def orPlaceholder : List Field → List Field
  | [] => [placeholder]
  | fs => fs

/-- The fields of a buffer with their places, and the size of the buffer. -/
structure Layout where
  fields : List PlacedField
  byteSize : UInt32
  deriving DecidableEq, Repr

namespace Layout

/-- Lays fields out. A layout that overflows has the greatest 32-bit size. -/
def ofFields (fs : List Field) : Layout :=
  let (placed, size) := place 0xFFFFFFFF 0 "" (orPlaceholder fs)
  ⟨placed, match size with | .ok n => n | .error _ => 0xFFFFFFFF⟩

/-- Lays fields out in at most `limit` bytes. The error names the first field that does not fit. -/
def ofFieldsWithin (limit : UInt32) (fs : List Field) : Except String Layout :=
  let (placed, size) := place limit 0 "" (orPlaceholder fs)
  size.map (⟨placed, ·⟩)

/-- The field with a name. -/
def field? (l : Layout) (name : String) : Option PlacedField :=
  l.fields.find? (·.name == name)

/-- Whether the layout has a field with a name. -/
def contains (l : Layout) (name : String) : Bool :=
  (l.field? name).isSome

/-- Whether the layout holds the stand-in field alone. -/
def isPlaceholder (l : Layout) : Bool :=
  l.fields.map (·.name) == [placeholderName]

end Layout

end Std140

end ForwardShading
