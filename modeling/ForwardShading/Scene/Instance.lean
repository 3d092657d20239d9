import ForwardShading.Scene.Material

/-!
# Instances

A visible mesh with its place in the world. Instances name their material by a handle, and two of
them share a material when they have the same handle.
-/

namespace ForwardShading

/-- A material, by its place in the table. -/
structure MaterialHandle where
  index : Nat
  deriving DecidableEq, Repr

/-- The materials that instances refer to. -/
abbrev MaterialTable := MaterialHandle → Material

/-- The vertices of an instance, and the range that is drawn. -/
structure Mesh where
  vertexBuffer : BufferHandle
  indexBuffer : Option BufferHandle := none
  primitive : Primitive := {}
  deriving DecidableEq, Repr

/-- The data for drawing a mesh many times. -/
structure Instancing where
  vertexBuffer : BufferHandle
  count : UInt32
  deriving DecidableEq, Repr

/-- A mesh in its place, with its material. -/
structure Instance where
  material : MaterialHandle
  mesh : Mesh
  mask : UInt32 := 1
  transform : Mat4 := .identity
  shaderFlags : UInt64 := 0
  instancing : Option Instancing := none
  stencil : Option StencilState := none
  parameters : Parameters := .empty

namespace Instance

/-- Whether an instanced draw has nothing to draw. -/
def isEmpty (i : Instance) : Bool :=
  i.instancing.any (·.count = 0)

/-- How many times the mesh is drawn. -/
def count (i : Instance) : UInt32 :=
  (i.instancing.map (·.count)).getD 1

/-- Whether the transform is a reflection, which turns the winding of faces around. -/
def flipsFaces (i : Instance) : Bool :=
  i.transform.determinant.lt 0

end Instance

end ForwardShading
