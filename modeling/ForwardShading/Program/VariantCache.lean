import ForwardShading.Program.Basic

/-!
# Variant caches

Programs by the keys they were built for. A key is built once, on its first request, and keeps its
result, also a failure.
-/

namespace ForwardShading

/-- A pass that programs are specialised for. -/
inductive ShaderPass
  | forward
  | depth
  | shadow
  | custom (id : UInt32)
  deriving DecidableEq, Repr

/-- What was built for a key: a program, or the error that stands in its place. -/
structure Variant (κ : Type) where
  key : κ
  name : String
  program : Except ShaderError Program

/-- Whether a variant has no program. -/
def Variant.isFailed {κ : Type} (v : Variant κ) : Bool :=
  match v.program with
  | .ok _ => false
  | .error _ => true

/-- The variants of programs in one dialect, and how many times one was built. -/
structure VariantCache (κ : Type) where
  dialect : Dialect
  variants : List (Variant κ)
  builds : Nat

namespace VariantCache

variable {κ : Type} [DecidableEq κ]

/-- A cache without variants. -/
def empty (dialect : Dialect) : VariantCache κ :=
  ⟨dialect, [], 0⟩

/-- The number of variants. -/
def size (c : VariantCache κ) : Nat :=
  c.variants.length

/-- The variant of a key, if it has been built. -/
def get? (c : VariantCache κ) (k : κ) : Option (Variant κ) :=
  c.variants.find? (·.key == k)

/-- Builds the variant of a key from its description. -/
def build (dialect : Dialect) (k : κ) (described : Definition × Surroundings) : Variant κ :=
  ⟨k, described.1.name, Program.build dialect described.1 described.2⟩

/-- The variant of a key. The description is looked at where the key has none. -/
def getOrBuild (c : VariantCache κ) (k : κ) (describe : Unit → Definition × Surroundings) :
    Variant κ × VariantCache κ :=
  match c.get? k with
  | some v => (v, c)
  | none =>
    let v := build c.dialect k (describe ())
    (v, { c with variants := c.variants ++ [v], builds := c.builds + 1 })

end VariantCache

end ForwardShading
