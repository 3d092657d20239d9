import ForwardShading.Program.Interface

/-!
# Declaration blocks

The declarations that stand in for those taken out of a stage, as a list of items, and the text of
each item in the shading language.
-/

namespace ForwardShading

open Glsl (Uniform)

/-- Whether a varying is read or written. -/
inductive Direction
  | input
  | output
  deriving DecidableEq, Repr

/-- The word for a direction. -/
def Direction.keyword : Direction → String
  | input => "in"
  | output => "out"

/-- An item of a declaration block. -/
inductive BlockItem
  | input (location : Nat) (type name : String)
  /-- A variable with the converted value of another one. -/
  | conversion (type name source : String)
  | varying (location : Option Nat) (direction : Direction) (type name : String)
  | output (location : Nat) (line : String)
  | uniformBlock (tier : Tier) (fields : List Std140.Field)
  | texture (tier : Tier) (slot : Nat) (type name : String)
  | sampler (tier : Tier) (slot : Nat) (name : String)
  /-- A name that stands for a texture combined with its sampler. -/
  | combination (name type textureName samplerName : String)
  | looseUniform (line : String)
  | gap
  deriving DecidableEq, Repr

namespace BlockItem

/-- The layout of a variable at a location. -/
def atLocation (location : Nat) : String :=
  "layout(location = " ++ toString location ++ ") "

/-- The layout of a resource at a slot of a tier. -/
def atSlot (tier : Tier) (slot : Nat) : String :=
  "layout(set = " ++ toString tier.group ++ ", binding = " ++ toString slot ++ ") "

/-- The line of a field in its block. -/
def fieldText (f : Std140.Field) : String :=
  let size := if f.count = 0 then "" else "[" ++ toString f.count.toNat ++ "]"
  "    " ++ f.type.name ++ " " ++ f.name ++ size ++ ";\n"

/-- The lines of an item. -/
def text : BlockItem → String
  | input location type name => atLocation location ++ "in " ++ type ++ " " ++ name ++ ";\n"
  | conversion type name source =>
    type ++ " " ++ name ++ " = " ++ type ++ "(" ++ source ++ ");\n"
  | varying location direction type name =>
    (location.map atLocation).getD "" ++ direction.keyword ++ " " ++ type ++ " " ++ name ++ ";\n"
  | output location line => atLocation location ++ "out " ++ line ++ ";\n"
  | uniformBlock tier fields =>
    "layout(set = " ++ toString tier.group ++ ", binding = 0, std140) uniform ub_" ++ tier.name ++
      " \x7b\n" ++ String.join (fields.map fieldText) ++ "\x7d;\n"
  | texture tier slot type name =>
    atSlot tier slot ++ "uniform " ++ type ++ " " ++ name ++ ";\n"
  | sampler tier slot name => atSlot tier slot ++ "uniform sampler " ++ name ++ ";\n"
  | combination name type textureName samplerName =>
    "#define " ++ name ++ " " ++ type ++ "(" ++ textureName ++ ", " ++ samplerName ++ ")\n"
  | looseUniform line => "uniform " ++ line ++ ";\n"
  | gap => "\n"

/-- The text of a block, item by item. -/
def blockText (items : List BlockItem) : String :=
  String.join (items.map text)

/-- The type of a floating-point value with the given number of components. -/
def floatType (components : Nat) : String :=
  if components = 1 then "float" else "vec" ++ toString components

/-- An attribute. Integer data is received under a private name and converted. -/
def ofAttribute (a : LocatedAttribute) : List BlockItem :=
  let name := a.decl.name
  match a.element.filter (·.needsIntegerAttribute) with
  | some e =>
    let components := a.decl.componentCount
    [input a.location (e.integerType components) ("_private_" ++ name),
      conversion (floatType components) name ("_private_" ++ name)]
  | none => [input a.location a.decl.typeName name]

/-- The declaration of a varying, at its location where bindings are explicit. -/
def ofVarying (dialect : Dialect) (direction : Direction) (v : LocatedVarying) : BlockItem :=
  let location :=
    match dialect with
    | .fixedBinding => none
    | .explicitBinding => some v.location
  varying location direction v.decl.qualifiedType v.decl.name

/-- A texture, its sampler, and for an array of textures the name that combines the two. -/
def ofTexture (tier : Tier) (t : BoundTexture) : List BlockItem :=
  let type := t.kind.typePrefix ++ t.dimension.textureType
  let samplerName := t.name ++ "_sampler"
  let samplers := if t.hasSampler then [sampler tier (t.slot + 1) samplerName] else []
  match t.dimension with
  | .flatArray =>
    let textureName := t.name ++ "_texture"
    texture tier t.slot type textureName :: samplers ++
      [combination t.name (t.kind.typePrefix ++ t.dimension.samplerType) textureName samplerName]
  | _ => texture tier t.slot type t.name :: samplers

/-- The uniform block of a buffer. -/
def ofLayout (tier : Tier) (l : Std140.Layout) : BlockItem :=
  uniformBlock tier (l.fields.map (·.toField))

/-- The declarations of the textures of a group. -/
def ofBindGroup (tier : Tier) (g : BindGroup) : List BlockItem :=
  g.textures.flatMap (ofTexture tier)

/-- The uniforms and textures of every tier and of the object. -/
def ofResources (dialect : Dialect) (i : Interface) : List BlockItem :=
  match dialect with
  | .fixedBinding => i.uniforms.map fun u => looseUniform u.line
  | .explicitBinding =>
    i.tiers.filterMap (fun s => s.uniforms.map (ofLayout s.tier)) ++
      [ofLayout .objectUniforms i.layout.uniforms] ++
      i.tiers.flatMap (fun s => (s.textures.map (ofBindGroup s.tier)).getD []) ++
      ofBindGroup .object i.layout.textures

end BlockItem

namespace Interface

open BlockItem

/-- The block of the vertex stage: attributes, varyings and resources. -/
def vertexBlock (dialect : Dialect) (i : Interface) : List BlockItem :=
  i.attributes.flatMap ofAttribute ++ [gap] ++
    i.vertexVaryings.map (ofVarying dialect .output) ++ [gap] ++ ofResources dialect i

/-- The block of the fragment stage: varyings, outputs and resources. -/
def fragmentBlock (dialect : Dialect) (i : Interface) : List BlockItem :=
  i.fragmentVaryings.map (ofVarying dialect .input) ++ [gap] ++
    i.outputs.map (fun o => output o.location o.decl.line) ++ [gap] ++ ofResources dialect i

end Interface

end ForwardShading
