/-!
# Vertex semantics

A semantic says what a vertex attribute means and fixes the location at which every program reads
it. Generic attributes share the locations of the named ones.
-/

namespace ForwardShading

/-- What a vertex attribute means. -/
inductive Semantic
  | position
  | normal
  | tangent
  | blendWeight
  | blendIndices
  | color
  | texCoord (set : UInt8)
  | generic (index : UInt8)
  deriving DecidableEq, Repr

namespace Semantic

/-- The location of a semantic. Texture coordinates above seven and generic attributes above fifteen
have none. -/
def location? : Semantic → Option Nat
  | position => some 0
  | normal => some 1
  | blendWeight => some 2
  | blendIndices => some 3
  | color => some 4
  | texCoord set => if set < 8 then some (5 + set.toNat) else none
  | tangent => some 13
  | generic index => if index < 16 then some index.toNat else none

/-- The place of a semantic in the order of semantics. -/
def rank : Semantic → Nat
  | position => 0
  | normal => 1
  | tangent => 2
  | blendWeight => 3
  | blendIndices => 4
  | color => 5
  | texCoord set => 6 + set.toNat
  | generic index => 262 + index.toNat

instance : Ord Semantic :=
  ⟨compareOn rank⟩

instance : Std.TransOrd Semantic :=
  inferInstanceAs (Std.TransCmp (compareOn rank))

/-- The semantics that have a location, the named ones first. -/
def all : List Semantic :=
  [position, normal, tangent, blendWeight, blendIndices, color] ++
    (List.range 8).map (fun n => texCoord (UInt8.ofNat n)) ++
    (List.range 16).map (fun n => generic (UInt8.ofNat n))

/-- Sorts semantics by their order. -/
def sort (ss : List Semantic) : List Semantic :=
  ss.mergeSort fun a b => decide (a.rank ≤ b.rank)

end Semantic

end ForwardShading
