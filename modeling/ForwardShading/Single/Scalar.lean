/-!
# Single-precision numbers

A `Scalar` is the bit pattern of an IEEE single-precision number, so that two of them are equal
exactly when every bit is. Arithmetic rounds to nearest, and every operation rounds on its own.
-/

namespace ForwardShading

/-- A single-precision number, as its bit pattern. -/
structure Scalar where
  bits : UInt32
  deriving DecidableEq, Repr

namespace Scalar

/-- A number for the arithmetic of the machine. -/
def toFloat32 (a : Scalar) : Float32 :=
  Float32.ofBits a.bits

/-- The bits of a number of the machine. -/
def ofFloat32 (x : Float32) : Scalar :=
  ⟨x.toBits⟩

instance : OfScientific Scalar :=
  ⟨fun m s e => ofFloat32 (OfScientific.ofScientific m s e)⟩

instance (n : Nat) : OfNat Scalar n :=
  ⟨ofFloat32 (Float32.ofNat n)⟩

instance : Inhabited Scalar :=
  ⟨⟨0⟩⟩

instance : Add Scalar :=
  ⟨fun a b => ofFloat32 (a.toFloat32 + b.toFloat32)⟩

instance : Sub Scalar :=
  ⟨fun a b => ofFloat32 (a.toFloat32 - b.toFloat32)⟩

instance : Mul Scalar :=
  ⟨fun a b => ofFloat32 (a.toFloat32 * b.toFloat32)⟩

instance : Div Scalar :=
  ⟨fun a b => ofFloat32 (a.toFloat32 / b.toFloat32)⟩

/-- The sign is flipped, also of a zero. -/
instance : Neg Scalar :=
  ⟨fun a => ⟨a.bits ^^^ 0x80000000⟩⟩

/-- Whether a number is a NaN. -/
def isNaN (a : Scalar) : Bool :=
  0x7f800000 < a.bits &&& 0x7fffffff

/-- The place of a number in the order of numbers: its magnitude as an integer, with its sign. Both
zeros have the place zero. -/
def rank (a : Scalar) : Int :=
  let magnitude : Int := (a.bits &&& 0x7fffffff).toNat
  if a.bits < 0x80000000 then magnitude else -magnitude

/-- The order of numbers, which holds of no pair with a NaN. -/
def lt (a b : Scalar) : Bool :=
  !a.isNaN && !b.isNaN && a.rank < b.rank

/-- Whether a number is neither infinite nor a NaN. -/
def isFinite (a : Scalar) : Bool :=
  (a.bits >>> 23) &&& 0xff != 0xff

/-- The greater of two numbers, the other one where one is a NaN. -/
def max (a b : Scalar) : Scalar :=
  if a.isNaN then b else if b.isNaN then a else if a.lt b then b else a

/-- The square root, correctly rounded. -/
def sqrt (a : Scalar) : Scalar :=
  ofFloat32 a.toFloat32.sqrt

/-- Applies a function that is computed in double precision, so that the one rounding that counts is
the last. -/
def viaDouble (f : Float → Float) (a : Scalar) : Scalar :=
  ofFloat32 (f a.toFloat32.toFloat).toFloat32

/-- The cosine of an angle in radians. -/
def cos : Scalar → Scalar :=
  viaDouble Float.cos

/-- The sine of an angle in radians. -/
def sin : Scalar → Scalar :=
  viaDouble Float.sin

/-- The tangent of an angle in radians. -/
def tan : Scalar → Scalar :=
  viaDouble Float.tan

/-- The number that is nearest to an integer. -/
def ofWord (n : UInt32) : Scalar :=
  ofFloat32 n.toFloat32

/-- The number that is nearest to π. -/
def pi : Scalar :=
  ⟨0x40490fdb⟩

/-- The distance from one to the next greater number. -/
def epsilon : Scalar :=
  ⟨0x34000000⟩

/-- An angle in radians. -/
def toRadians (degrees : Scalar) : Scalar :=
  degrees * (pi / 180)

end Scalar

end ForwardShading
