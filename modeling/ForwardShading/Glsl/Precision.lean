/-!
# Precision qualifiers
-/

namespace ForwardShading.Glsl

/-- The precisions that a declaration can ask for. -/
inductive Precision
  | high
  | medium
  | low
  deriving DecidableEq, Repr

namespace Precision

/-- The word for a precision. -/
def name : Precision → String
  | high => "highp"
  | medium => "mediump"
  | low => "lowp"

/-- The precision that a word stands for. -/
def ofName? (s : String) : Option Precision :=
  [high, medium, low].find? (·.name == s)

theorem ofName?_eq_some {s : String} {p : Precision} : ofName? s = some p ↔ p.name = s := by
  constructor
  · intro h
    simpa using List.find?_some h
  · rintro rfl
    cases p <;> decide

end Precision

end ForwardShading.Glsl
