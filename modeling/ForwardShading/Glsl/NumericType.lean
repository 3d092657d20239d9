/-!
# Numeric types

The types of uniforms that live in a uniform buffer. A value is one column or a square matrix of
columns, and every component takes four bytes.
-/

namespace ForwardShading.Glsl

/-- The type of a single number. -/
inductive Component
  | bool
  | int
  | uint
  | float
  deriving DecidableEq, Repr

/-- A number of components or columns beyond one. -/
inductive Extent
  | two
  | three
  | four
  deriving DecidableEq, Repr

/-- An extent as a number. -/
def Extent.size : Extent → Nat
  | two => 2
  | three => 3
  | four => 4

/-- An extent as it stands in the name of a type. -/
def Extent.digit : Extent → String
  | two => "2"
  | three => "3"
  | four => "4"

/-- The types of numeric uniforms. Matrices are square and of floating-point numbers. -/
inductive NumericType
  | scalar (component : Component)
  | vector (component : Component) (extent : Extent)
  | matrix (extent : Extent)
  deriving DecidableEq, Repr

namespace NumericType

/-- The name of a type in a text. -/
def name : NumericType → String
  | scalar .bool => "bool"
  | scalar .int => "int"
  | scalar .uint => "uint"
  | scalar .float => "float"
  | vector .float n => "vec" ++ n.digit
  | vector .int n => "ivec" ++ n.digit
  | vector .uint n => "uvec" ++ n.digit
  | vector .bool n => "bvec" ++ n.digit
  | matrix n => "mat" ++ n.digit

/-- Every numeric type. -/
def all : List NumericType :=
  let extents : List Extent := [.two, .three, .four]
  let components : List Component := [.bool, .int, .uint, .float]
  components.map scalar ++ components.flatMap (fun c => extents.map (vector c)) ++
    extents.map matrix

/-- The numeric type with a name. -/
def ofName? (s : String) : Option NumericType :=
  all.find? (·.name == s)

theorem ofName?_eq_some {s : String} {t : NumericType} : ofName? s = some t ↔ t.name = s := by
  constructor
  · intro h
    simpa using List.find?_some h
  · rintro rfl
    rcases t with c | ⟨c, n⟩ | n
    · cases c <;> decide
    · cases c <;> cases n <;> decide
    · cases n <;> decide

/-- The number of columns, one for all but matrices. -/
def columns : NumericType → Nat
  | matrix n => n.size
  | _ => 1

/-- The number of components of a column. -/
def components : NumericType → Nat
  | scalar _ => 1
  | vector _ n => n.size
  | matrix n => n.size

/-- The number of components of a value. -/
def capacity (t : NumericType) : Nat :=
  t.columns * t.components

end NumericType

end ForwardShading.Glsl
