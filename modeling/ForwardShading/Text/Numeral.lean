/-!
# Decimal numerals

A numeral is a non-empty run of the digits 0 to 9, after at most one plus sign. Its value has to
fit in 32 bits.
-/

namespace ForwardShading.Text

/-- The value of a digit. -/
def digit? (c : Char) : Option Nat :=
  if c.isDigit then some (c.toNat - '0'.toNat) else none

/-- The value of a run of digits, the most significant first. -/
def digitsValue (ds : List Char) : Nat :=
  ds.foldl (fun n d => 10 * n + (d.toNat - '0'.toNat)) 0

/-- The digits of a numeral, its plus sign removed. -/
def unsigned : List Char → List Char
  | '+' :: ds => ds
  | ds => ds

/-- Reads a numeral below `2 ^ 32`. -/
def word32? (cs : List Char) : Option UInt32 :=
  let ds := unsigned cs
  if ds ≠ [] ∧ ds.all Char.isDigit ∧ digitsValue ds < UInt32.size then
    some (UInt32.ofNat (digitsValue ds))
  else
    none

end ForwardShading.Text
