/-!
# Errors of shader processing

`DeclarationError` lists what can be wrong with the declarations of a program, each cause with the
declarations that show it; `ShaderError` adds the program's name. `message` holds the wording.
-/

namespace ForwardShading

/-- What is wrong with a declaration or a pair of declarations. -/
inductive DeclarationError
  | nonNumericArraySize (line : String)
  | multipleUniformsOnLine (line : String)
  | unknownUniformType (typeName line : String)
  | malformed (line : String)
  | uniformMismatch (name first second : String)
  | duplicateAttributeLocation (location : Nat) (first second : String)
  | unmappedAttribute (name line : String)
  | uniformBufferTooLarge (name : String) (limit : Nat) (line : String)
  | duplicateVarying (name first second : String)
  | varyingMismatch (name vertex fragment : String)
  | danglingVarying (name line : String)
  deriving DecidableEq, Repr

namespace DeclarationError

/-- The wording of an error, which quotes the declarations that show it. -/
def message : DeclarationError → String
  | nonNumericArraySize line =>
    s!"only numerically specified uniform array sizes are supported: `{line}`"
  | multipleUniformsOnLine line =>
    s!"a comma on a uniform line is not supported, split it into multiple uniforms: `{line}`"
  | unknownUniformType typeName line =>
    s!"uniform type `{typeName}` is not recognized: `{line}`"
  | malformed line =>
    s!"malformed declaration: `{line}`"
  | uniformMismatch _ first second =>
    "vertex and fragment stages cannot use the same uniform name with different declarations: " ++
      s!"`{first}` and `{second}`"
  | duplicateAttributeLocation location first second =>
    s!"vertex attributes `{first}` and `{second}` are mapped to the same location {location}"
  | unmappedAttribute name line =>
    s!"attribute `{name}` has no semantic in the shader definition: `{line}`"
  | uniformBufferTooLarge name limit line =>
    s!"uniform `{name}` does not fit in a {limit} byte uniform buffer: `{line}`"
  | duplicateVarying name first second =>
    s!"varying `{name}` is declared more than once in the vertex stage: `{first}` and `{second}`"
  | varyingMismatch name vertex fragment =>
    s!"varying `{name}` has different types in the vertex and fragment stages: " ++
      s!"`{vertex}` and `{fragment}`"
  | danglingVarying name line =>
    s!"fragment stage requires varying `{name}` but the vertex stage does not generate it: `{line}`"

end DeclarationError

/-- An error with the name of the program that has it. -/
structure ShaderError where
  shader : String
  cause : DeclarationError
  deriving DecidableEq, Repr

/-- The wording of an error with the name of the program in front. -/
def ShaderError.message (e : ShaderError) : String :=
  "shader `" ++ e.shader ++ "`: " ++ e.cause.message

end ForwardShading
