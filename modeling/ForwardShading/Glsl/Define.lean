import ForwardShading.Glsl.Version

/-!
# Preprocessor defines

A program is specialised by `#define` lines behind the version line of both stages.
-/

namespace ForwardShading.Glsl

/-- A value that a material gives a define. -/
inductive DefineValue
  | flag (on : Bool)
  | int (n : Int32)
  | uint (n : UInt32)
  deriving DecidableEq, Repr

/-- A `#define` line. An empty value is not written. -/
structure Define where
  name : String
  value : String
  deriving DecidableEq, Repr

namespace Define

/-- The line that a switch stands for. A flag that is off has none. -/
def ofValue? (name : String) : DefineValue → Option Define
  | .flag true => some ⟨name, ""⟩
  | .flag false => none
  | .int n => some ⟨name, toString n.toInt⟩
  | .uint n => some ⟨name, toString n.toNat⟩

/-- The line of a define. A define without a value is a bare name. -/
def text (d : Define) : List Char :=
  "#define ".toList ++ d.name.toList ++ (if d.value = "" then [] else ' ' :: d.value.toList) ++
    ['\n']

/-- Inserts lines behind the version line of a text. -/
def insertAll (defines : List Define) (source : String) : String :=
  match defines with
  | [] => source
  | _ => String.ofList (insertAfterVersion source.toList (defines.flatMap text))

end Define

end ForwardShading.Glsl
