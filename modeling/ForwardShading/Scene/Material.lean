import ForwardShading.Device.Command

/-!
# Materials

A material has a program template with defines, resources and parameters, and fixed-function state.
Its fingerprint is what its programs are told apart by.
-/

namespace ForwardShading

/-- Uniform values by name. -/
abbrev Parameters := OrderedMap String UniformValue

namespace Parameters

/-- Sets every parameter, in the order of names. -/
def commands (ps : Parameters) : List Command :=
  ps.entries.map fun (name, value) => .uniform name value

/-- Sets the parameters among the given names. -/
def commandsFor (ps : Parameters) (names : List String) : List Command :=
  names.filterMap fun name => (ps.get? name).map (.uniform name)

end Parameters

/-- A material: a program to be specialised, with the parameters and the state to draw with. -/
structure Material where
  definition : Definition
  defines : OrderedMap String Glsl.DefineValue := .empty
  variantFlags : UInt64 := 0
  resources : ResourceSet := .empty .material
  parameters : Parameters := .empty
  blend : Option BlendState := none
  depth : DepthState := {}
  stencil : Option StencilState := none
  cull : CullMode := .back
  alphaTest : Scalar := 0

/-- The parts of a material that its programs depend on. -/
structure MaterialFingerprint where
  definition : Definition
  defines : OrderedMap String Glsl.DefineValue
  variantFlags : UInt64
  resources : ResourceSet
  deriving DecidableEq

namespace Material

/-- What programs depend on in a material. -/
def fingerprint (m : Material) : MaterialFingerprint :=
  ⟨m.definition, m.defines, m.variantFlags, m.resources⟩

/-- The lines of the material's defines, in the order of names. -/
def defineLines (m : Material) : List Glsl.Define :=
  m.defines.entries.filterMap fun (name, value) => Glsl.Define.ofValue? name value

/-- The template with the material's defines and further ones. -/
def variantDefinition (m : Material) (extra : List Glsl.Define) : Definition :=
  m.definition.withDefines (m.defineLines ++ extra)

end Material

end ForwardShading
