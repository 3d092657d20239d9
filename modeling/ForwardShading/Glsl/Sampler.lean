/-!
# Sampler types

A sampler type says which textures it reads (`TextureDimension`) and what a read returns
(`Sampling`). Depth comparison exists for every dimension but three.
-/

namespace ForwardShading.Glsl

/-- The shapes of textures. -/
inductive TextureDimension
  | flat
  | flatArray
  | cube
  | volume
  deriving DecidableEq, Repr

namespace TextureDimension

/-- The ending that type names of this dimension share. -/
def suffix : TextureDimension → String
  | flat => "2D"
  | flatArray => "2DArray"
  | cube => "Cube"
  | volume => "3D"

/-- The type of a texture object without its sampler. -/
def textureType (d : TextureDimension) : String :=
  "texture" ++ d.suffix

/-- The type of a texture combined with its sampler. -/
def samplerType (d : TextureDimension) : String :=
  "sampler" ++ d.suffix

end TextureDimension

/-- How the device samples a texture, which decides the type of its binding. -/
inductive SampleKind
  | float
  | unfilterableFloat
  | depth
  | int
  | uint
  deriving DecidableEq, Repr

/-- The letter in front of the type names of integer textures. -/
def SampleKind.typePrefix : SampleKind → String
  | int => "i"
  | uint => "u"
  | _ => ""

/-- What a read through a sampler returns. -/
inductive Sampling
  | color
  | signed
  | unsigned
  | comparison
  deriving DecidableEq, Repr

/-- A type of sampler uniforms. -/
structure SamplerType where
  dimension : TextureDimension
  sampling : Sampling
  deriving DecidableEq, Repr

namespace SamplerType

/-- The name of a sampler type: its shape, with a letter in front for integers or a word behind for
comparison. -/
def name (t : SamplerType) : String :=
  match t.sampling with
  | .color => t.dimension.samplerType
  | .signed => "i" ++ t.dimension.samplerType
  | .unsigned => "u" ++ t.dimension.samplerType
  | .comparison => t.dimension.samplerType ++ "Shadow"

/-- Every sampler type. There is no comparison in a volume. -/
def all : List SamplerType :=
  ([.flat, .flatArray, .cube, .volume] : List TextureDimension).flatMap fun d =>
    (([.color, .signed, .unsigned, .comparison] : List Sampling).filter fun s =>
      !(d = .volume ∧ s = .comparison)).map fun s => ⟨d, s⟩

/-- The sampler type with a name. -/
def ofName? (s : String) : Option SamplerType :=
  all.find? (·.name == s)

theorem ofName?_name {t : SamplerType} (h : t ∈ all) : ofName? t.name = some t := by
  obtain ⟨d, s⟩ := t
  cases d <;> cases s <;> first | decide | exact absurd h (by decide)

theorem mem_all_of_ofName? {s : String} {t : SamplerType} (h : ofName? s = some t) :
    t ∈ all ∧ t.name = s :=
  ⟨List.mem_of_find?_eq_some h, by simpa using List.find?_some h⟩

end SamplerType

end ForwardShading.Glsl
