import ForwardShading.Binding.ResourceSet
import ForwardShading.Glsl.Declaration

/-!
# Object layouts

The uniforms of both stages are merged, and those that no tier binds are left to the object: numeric
ones in a uniform buffer of at most 64 KiB, textures in a bind group.
-/

namespace ForwardShading

open Glsl (Uniform NumericType)

/-- The resources that a program needs for every object. -/
structure ObjectLayout where
  uniforms : Std140.Layout
  textures : BindGroup
  deriving DecidableEq, Repr

namespace Glsl.Uniform

/-- Adds declarations to a list that has each name once. A name that is declared again has to be
declared by the same line. -/
def mergeInto (merged : List Uniform) : List Uniform → Except DeclarationError (List Uniform)
  | [] => .ok merged
  | u :: us =>
    match merged.find? (·.name == u.name) with
    | none => mergeInto (merged ++ [u]) us
    | some first =>
      if first.line = u.line then
        mergeInto merged us
      else
        .error (.uniformMismatch u.name first.line u.line)

/-- The uniforms of two stages, each name once. -/
def merge (vertex fragment : List Uniform) : Except DeclarationError (List Uniform) :=
  mergeInto [] (vertex ++ fragment)

/-- The texture that a sampler uniform binds in both stages. -/
def texture (u : Uniform) (t : SamplerType) : Texture where
  name := u.name
  visibility := ⟨true, true⟩
  dimension := t.dimension
  kind := u.sampleKind t
  hasSampler := true

/-- The buffer field of a numeric uniform. -/
def field (u : Uniform) : Except DeclarationError Std140.Field :=
  match NumericType.ofName? u.typeName with
  | some type => .ok ⟨u.name, type, u.arraySize⟩
  | none => .error (.unknownUniformType u.typeName u.line)

/-- Whether a tier already binds a uniform: a sampler as a texture, any other in a buffer. -/
def isProvided (tiers : ResourceTiers) (u : Uniform) : Bool :=
  match u.sampler with
  | some _ => (tiers.resolveTexture u.name).isSome
  | none => (tiers.resolveUniform u.name).isSome

end Glsl.Uniform

namespace ObjectLayout

/-- The greatest size in bytes of an object's uniform buffer. -/
def maxBufferSize : UInt32 :=
  65536

/-- The textures of the sampler uniforms, in their order. -/
def texturesOf (us : List Uniform) : List Texture :=
  us.filterMap fun u => u.sampler.map u.texture

/-- The buffer fields of the numeric uniforms, or the error of the first that has no numeric type.
-/
def fieldsOf (us : List Uniform) : Except DeclarationError (List Std140.Field) :=
  (us.filter (·.sampler.isNone)).mapM (·.field)

/-- The line of the first uniform with a name. -/
def lineOf (us : List Uniform) (name : String) : String :=
  ((us.find? (·.name == name)).map (·.line)).getD ""

/-- The layout of the uniforms that no tier binds. -/
def allocate (tiers : ResourceTiers) (us : List Uniform) : Except DeclarationError ObjectLayout := do
  let own := us.filter (!·.isProvided tiers)
  let fields ← fieldsOf own
  match Std140.Layout.ofFieldsWithin maxBufferSize fields with
  | .ok uniforms => return ⟨uniforms, .ofTextures 0 (texturesOf own)⟩
  | .error name => .error (.uniformBufferTooLarge name maxBufferSize.toNat (lineOf us name))

end ObjectLayout

end ForwardShading
