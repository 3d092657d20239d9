import ForwardShading.Single.Vector

/-!
# Matrices of single-precision numbers

Matrices are lists of columns. Every product, inverse and determinant fixes the order in which its
terms are summed.
-/

namespace ForwardShading

/-- A matrix of three columns. -/
structure Mat3 where
  x : Vec3
  y : Vec3
  z : Vec3
  deriving DecidableEq, Repr

/-- The components, column by column. -/
def Mat3.toList (m : Mat3) : List Scalar :=
  m.x.toList ++ m.y.toList ++ m.z.toList

/-- A matrix of four columns. -/
structure Mat4 where
  x : Vec4
  y : Vec4
  z : Vec4
  w : Vec4
  deriving DecidableEq, Repr

namespace Mat4

/-- The components, column by column. -/
def toList (m : Mat4) : List Scalar :=
  m.x.toList ++ m.y.toList ++ m.z.toList ++ m.w.toList

/-- The matrix of zeros. -/
def zero : Mat4 :=
  ⟨.zero, .zero, .zero, .zero⟩

/-- The matrix that maps every vector to itself. -/
def identity : Mat4 :=
  ⟨⟨1, 0, 0, 0⟩, ⟨0, 1, 0, 0⟩, ⟨0, 0, 1, 0⟩, ⟨0, 0, 0, 1⟩⟩

/-- The image of a vector, its columns added up from the left. -/
def mulVec (m : Mat4) (v : Vec4) : Vec4 :=
  m.x * v.x + m.y * v.y + m.z * v.z + m.w * v.w

instance : Mul Mat4 :=
  ⟨fun a b => ⟨a.mulVec b.x, a.mulVec b.y, a.mulVec b.z, a.mulVec b.w⟩⟩

/-- The image of a direction, to which a shift does nothing. -/
def transformDirection (m : Mat4) (v : Vec3) : Vec3 :=
  (m.x * v.x + m.y * v.y + m.z * v.z).truncate

/-- The map that moves points by a vector. -/
def shift (v : Vec3) : Mat4 :=
  { identity with w := v.extend 1 }

/-- The map that scales each axis by a component. -/
def scaling (v : Vec3) : Mat4 :=
  ⟨⟨v.x, 0, 0, 0⟩, ⟨0, v.y, 0, 0⟩, ⟨0, 0, v.z, 0⟩, ⟨0, 0, 0, 1⟩⟩

/-- The rotation about the first axis. -/
def rotationX (angle : Scalar) : Mat4 :=
  let s := angle.sin
  let c := angle.cos
  ⟨⟨1, 0, 0, 0⟩, ⟨0, c, s, 0⟩, ⟨0, -s, c, 0⟩, ⟨0, 0, 0, 1⟩⟩

/-- The right-handed perspective projection with depths from minus one to one. -/
def perspective (fov aspect near far : Scalar) : Mat4 :=
  let il := 1 / (near - far)
  let g := 1 / (0.5 * fov).tan
  ⟨⟨g / aspect, 0, 0, 0⟩, ⟨0, g, 0, 0⟩, ⟨0, 0, (near + far) * il, -1⟩,
    ⟨0, 0, 2 * near * far * il, 0⟩⟩

/-- The determinant, expanded along the first column. -/
def determinant (m : Mat4) : Scalar :=
  let ⟨x, y, z, w⟩ := m
  let s0 := z.z * w.w - z.w * w.z
  let s1 := z.y * w.w - z.w * w.y
  let s2 := z.y * w.z - z.z * w.y
  let s3 := z.x * w.w - z.w * w.x
  let f0 := z.x * w.z - z.z * w.x
  let f1 := z.x * w.y - z.y * w.x
  x.dot ⟨y.y * s0 - y.z * s1 + y.w * s2, -(y.x * s0 - y.z * s3 + y.w * f0),
    y.x * s1 - y.y * s3 + y.w * f1, -(y.x * s2 - y.y * f0 + y.z * f1)⟩

/-- The minors of the last two columns in two rows, each from the columns that `fac` names. -/
def minors (m : Mat4) (p q : Vec4 → Scalar) : Vec4 :=
  let a := p m.z * q m.w - p m.w * q m.z
  ⟨a, a, p m.y * q m.w - p m.w * q m.y, p m.y * q m.z - p m.z * q m.y⟩

/-- The inverse by cofactors, which the determinant divides at the end. -/
def inverse (m : Mat4) : Mat4 :=
  let f0 := m.minors Vec4.z Vec4.w
  let f1 := m.minors Vec4.y Vec4.w
  let f2 := m.minors Vec4.y Vec4.z
  let f3 := m.minors Vec4.x Vec4.w
  let f4 := m.minors Vec4.x Vec4.z
  let f5 := m.minors Vec4.x Vec4.y
  let row (k : Vec4 → Scalar) : Vec4 := ⟨k m.y, k m.x, k m.x, k m.x⟩
  let v0 := row Vec4.x
  let v1 := row Vec4.y
  let v2 := row Vec4.z
  let v3 := row Vec4.w
  let even : Vec4 := ⟨1, -1, 1, -1⟩
  let odd : Vec4 := ⟨-1, 1, -1, 1⟩
  let i0 := even * (v1 * f0 - v2 * f1 + v3 * f2)
  let i1 := odd * (v0 * f0 - v2 * f3 + v3 * f4)
  let i2 := even * (v0 * f1 - v1 * f3 + v3 * f5)
  let i3 := odd * (v0 * f2 - v1 * f4 + v2 * f5)
  let r := 1 / m.x.dot ⟨i0.x, i1.x, i2.x, i3.x⟩
  ⟨i0 * r, i1 * r, i2 * r, i3 * r⟩

/-- The inverse transpose of the upper left part, which maps normals. -/
def normalMatrix (m : Mat4) : Mat3 :=
  let a := m.x.truncate
  let b := m.y.truncate
  let c := m.z.truncate
  let t0 := b.cross c
  let t1 := c.cross a
  let t2 := a.cross b
  let r := 1 / c.dot t2
  ⟨t0 * r, t1 * r, t2 * r⟩

end Mat4

end ForwardShading
