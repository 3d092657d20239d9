import ForwardShading.Glsl.Sampler

/-!
# Bind groups

The textures of a group in the order of their slots. A texture takes one slot and its sampler, if it
has one, the next.
-/

namespace ForwardShading

open Glsl (TextureDimension SampleKind)

/-- The stages that see a binding. -/
structure Visibility where
  vertex : Bool
  fragment : Bool
  deriving DecidableEq, Repr

/-- A texture that is to be bound. -/
structure Texture where
  name : String
  visibility : Visibility
  dimension : TextureDimension
  kind : SampleKind
  hasSampler : Bool
  deriving DecidableEq, Repr

/-- The number of slots that a texture takes with its sampler. -/
def Texture.slots (t : Texture) : Nat :=
  if t.hasSampler then 2 else 1

/-- A texture with its slot. Its sampler has the next one. -/
structure BoundTexture extends Texture where
  slot : Nat
  deriving DecidableEq, Repr

/-- The textures that are bound together. -/
structure BindGroup where
  textures : List BoundTexture
  deriving DecidableEq, Repr

namespace BindGroup

/-- Gives textures their slots, one behind the other. -/
def assign (first : Nat) : List Texture → List BoundTexture
  | [] => []
  | t :: ts => ⟨t, first⟩ :: assign (first + t.slots) ts

/-- The group of textures whose slots begin with the given one. -/
def ofTextures (first : Nat) (ts : List Texture) : BindGroup :=
  ⟨assign first ts⟩

/-- The texture with a name, if the group has one. -/
def texture? (g : BindGroup) (name : String) : Option BoundTexture :=
  g.textures.find? (·.name == name)

/-- Whether the group has a texture with a name. -/
def contains (g : BindGroup) (name : String) : Bool :=
  (g.texture? name).isSome

end BindGroup

end ForwardShading
