import ForwardShading.Text.Words
import ForwardShading.Text.Search
import ForwardShading.Text.Numeral
import ForwardShading.Glsl.Precision
import ForwardShading.Glsl.Sampler
import ForwardShading.ShaderError

/-!
# Declarations

The text between a declaration's keyword and its semicolon. Every declaration keeps its text with
white space collapsed (`line`), by which declarations of two stages are compared and which error
messages show.
-/

namespace ForwardShading.Glsl

open Text

/-- A declaration of the form `[precision] type name` or `[precision] type name[size]`. -/
structure TypedName where
  precision : Option Precision
  typeName : String
  name : String
  /-- The number of array elements, zero where no size is given. -/
  arraySize : UInt32
  deriving DecidableEq, Repr

/-- A declared name with its array size, which is zero where there is none. -/
structure Declarator where
  name : List Char
  arraySize : UInt32

namespace Declarator

/-- Splits the name from the brackets. The brackets reach from the first `[` to the last `]`, and
what follows them is not looked at. -/
def split (line : String) (cs : List Char) : Except DeclarationError Declarator :=
  match breakAt '[' cs with
  | none => .ok ⟨cs, 0⟩
  | some (name, after) =>
    match breakAtLast ']' after with
    | none => .error (.malformed line)
    | some (size, _) =>
      match word32? (trim size) with
      | none => .error (.nonNumericArraySize line)
      | some n => .ok ⟨trim name, n⟩

/-- Reads a name and its array size. The name is one word. -/
def parse (line : String) (cs : List Char) : Except DeclarationError Declarator := do
  let d ← split line cs
  if d.name = [] ∨ ' ' ∈ d.name then
    .error (.malformed line)
  else
    .ok d

end Declarator

namespace TypedName

/-- The precision in front of a declaration and the words after it. -/
def takePrecision : List (List Char) → Option Precision × List (List Char)
  | [] => (none, [])
  | w :: ws =>
    match Precision.ofName? (String.ofList w) with
    | some p => (some p, ws)
    | none => (none, w :: ws)

/-- Reads a precision, a type and a declarator from the words of a line. -/
def ofWords (line : String) (ws : List (List Char)) : Except DeclarationError TypedName :=
  match takePrecision ws with
  | (_, []) => .error (.malformed line)
  | (_, [_]) => .error (.malformed line)
  | (precision, type :: rest) => do
    let d ← Declarator.parse line (unwords rest)
    return ⟨precision, String.ofList type, String.ofList d.name, d.arraySize⟩

end TypedName

/-- A text with white space collapsed. -/
def normalForm (text : List Char) : String :=
  String.ofList (collapse text)

/-- A uniform declaration. -/
structure Uniform where
  line : String
  precision : Option Precision
  typeName : String
  name : String
  arraySize : UInt32
  /-- The sampler type of a texture uniform. -/
  sampler : Option SamplerType
  deriving DecidableEq, Repr

namespace Uniform

/-- The sampler type that a type name stands for: none where the name is not one of a sampler, an
error where it is one of an unsupported sampler. -/
def samplerOf (typeName line : String) : Except DeclarationError (Option SamplerType) :=
  if occursIn "sampler".toList typeName.toList then
    match SamplerType.ofName? typeName with
    | some t => .ok (some t)
    | none => .error (.unknownUniformType typeName line)
  else
    .ok none

/-- Reads a uniform. A comma stands for more than one, which a line must not declare. -/
def parse (text : List Char) : Except DeclarationError Uniform :=
  let line := normalForm text
  if ',' ∈ collapse text then
    .error (.multipleUniformsOnLine line)
  else do
    let d ← TypedName.ofWords line (words text)
    let sampler ← samplerOf d.typeName line
    return ⟨line, d.precision, d.typeName, d.name, d.arraySize, sampler⟩

/-- How the texture of a sampler uniform is sampled. A sampler that filters is unfilterable in high
precision. -/
def sampleKind (u : Uniform) (t : SamplerType) : SampleKind :=
  match t.sampling with
  | .signed => .int
  | .unsigned => .uint
  | .comparison => .depth
  | .color => if u.precision = some .high then .unfilterableFloat else .float

end Uniform

/-- An attribute declaration. An array size is read and dropped. -/
structure Attribute where
  line : String
  precision : Option Precision
  typeName : String
  name : String
  deriving DecidableEq, Repr

namespace Attribute

/-- Reads an attribute. -/
def parse (text : List Char) : Except DeclarationError Attribute := do
  let line := normalForm text
  let d ← TypedName.ofWords line (words text)
  return ⟨line, d.precision, d.typeName, d.name⟩

/-- The number of components, which is the last digit of the type's name. -/
def componentCount (a : Attribute) : Nat :=
  (a.typeName.toList.getLast?.bind digit?).getD 1

end Attribute

/-- A varying declaration. Its last word is the name. -/
structure Varying where
  line : String
  /-- All words before the name. -/
  qualifiedType : String
  name : String
  deriving DecidableEq, Repr

namespace Varying

/-- Reads the text after the keyword. The name is the last word. -/
def parse (text : List Char) : Except DeclarationError Varying :=
  match (words text).reverse with
  | name :: q :: qualifiers =>
    .ok ⟨normalForm text, String.ofList (unwords (q :: qualifiers).reverse), String.ofList name⟩
  | _ => .error (.malformed (normalForm text))

/-- The type without its qualifiers. -/
def dataType (v : Varying) : String :=
  String.ofList ((words v.qualifiedType.toList).getLastD [])

end Varying

/-- An `out` declaration outside of functions. -/
structure Output where
  line : String
  deriving DecidableEq, Repr

/-- Reads the text after the keyword, which has at least two words. -/
def Output.parse (text : List Char) : Except DeclarationError Output :=
  if (words text).length < 2 then
    .error (.malformed (normalForm text))
  else
    .ok ⟨normalForm text⟩

end ForwardShading.Glsl
