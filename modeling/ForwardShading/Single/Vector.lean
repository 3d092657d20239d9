import ForwardShading.Single.Scalar

/-!
# Vectors of single-precision numbers

Sums are taken from left to right.
-/

namespace ForwardShading

/-- A vector of two components. -/
structure Vec2 where
  x : Scalar
  y : Scalar
  deriving DecidableEq, Repr

/-- A vector of three components. -/
structure Vec3 where
  x : Scalar
  y : Scalar
  z : Scalar
  deriving DecidableEq, Repr

/-- A vector of four components. -/
structure Vec4 where
  x : Scalar
  y : Scalar
  z : Scalar
  w : Scalar
  deriving DecidableEq, Repr

namespace Vec2

/-- The zero vector. -/
def zero : Vec2 :=
  ⟨0, 0⟩

/-- The components in order. -/
def toList (v : Vec2) : List Scalar :=
  [v.x, v.y]

end Vec2

namespace Vec3

/-- The vector with one number for every component. -/
def splat (a : Scalar) : Vec3 :=
  ⟨a, a, a⟩

/-- The zero vector. -/
def zero : Vec3 :=
  splat 0

/-- The components in order. -/
def toList (v : Vec3) : List Scalar :=
  [v.x, v.y, v.z]

/-- The vector with a fourth component. -/
def extend (v : Vec3) (w : Scalar) : Vec4 :=
  ⟨v.x, v.y, v.z, w⟩

instance : Add Vec3 :=
  ⟨fun a b => ⟨a.x + b.x, a.y + b.y, a.z + b.z⟩⟩

instance : Sub Vec3 :=
  ⟨fun a b => ⟨a.x - b.x, a.y - b.y, a.z - b.z⟩⟩

instance : Neg Vec3 :=
  ⟨fun a => ⟨-a.x, -a.y, -a.z⟩⟩

instance : HMul Vec3 Scalar Vec3 :=
  ⟨fun v a => ⟨v.x * a, v.y * a, v.z * a⟩⟩

/-- The dot product, added up from the left. -/
def dot (a b : Vec3) : Scalar :=
  a.x * b.x + a.y * b.y + a.z * b.z

/-- The cross product. -/
def cross (a b : Vec3) : Vec3 :=
  ⟨a.y * b.z - b.y * a.z, a.z * b.x - b.z * a.x, a.x * b.y - b.x * a.y⟩

/-- The square of the distance between two points. -/
def distanceSquared (a b : Vec3) : Scalar :=
  (a - b).dot (a - b)

/-- The vector at length one, zero where its length has no usable reciprocal. -/
def normalizeOrZero (v : Vec3) : Vec3 :=
  let r := 1 / (v.dot v).sqrt
  if r.isFinite && Scalar.lt 0 r then v * r else zero

end Vec3

namespace Vec4

/-- The vector with one number for every component. -/
def splat (a : Scalar) : Vec4 :=
  ⟨a, a, a, a⟩

/-- The zero vector. -/
def zero : Vec4 :=
  splat 0

/-- The components in order. -/
def toList (v : Vec4) : List Scalar :=
  [v.x, v.y, v.z, v.w]

/-- The first three components. -/
def truncate (v : Vec4) : Vec3 :=
  ⟨v.x, v.y, v.z⟩

/-- Combines two vectors component by component. -/
def zipWith (f : Scalar → Scalar → Scalar) (a b : Vec4) : Vec4 :=
  ⟨f a.x b.x, f a.y b.y, f a.z b.z, f a.w b.w⟩

instance : Add Vec4 :=
  ⟨zipWith (· + ·)⟩

instance : Sub Vec4 :=
  ⟨zipWith (· - ·)⟩

instance : Mul Vec4 :=
  ⟨zipWith (· * ·)⟩

instance : HMul Vec4 Scalar Vec4 :=
  ⟨fun v a => v * splat a⟩

/-- The even and the odd products are summed first. -/
def dot (a b : Vec4) : Scalar :=
  (a.x * b.x + a.z * b.z) + (a.y * b.y + a.w * b.w)

end Vec4

end ForwardShading
