/-!
# Binding tiers

Resources are bound in groups that change at different rates: for each view, for each material, and
for each object.
-/

namespace ForwardShading

/-- The groups of resources, from the one that changes least to the one that changes most. -/
inductive Tier
  | view
  | material
  | object
  | objectUniforms
  deriving DecidableEq, Repr

namespace Tier

/-- The number of the descriptor set in which a tier is bound. -/
def group : Tier → Nat
  | view => 0
  | material => 1
  | object => 2
  | objectUniforms => 3

/-- The name of the group's uniform block, behind a common beginning. -/
def name : Tier → String
  | view => "view"
  | material => "material"
  | object => "object"
  | objectUniforms => "object_ub"

end Tier

end ForwardShading
