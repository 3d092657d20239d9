import ForwardShading.Binding.ObjectLayout
import ForwardShading.Glsl.Stage
import ForwardShading.Program.Definition

/-!
# Program interfaces

The declarations of both stages brought together: attributes at the locations of their semantics,
varyings numbered in the order of the vertex stage and found by name in the fragment stage, and the
merged uniforms with the layout of what no tier binds. Nothing here depends on a dialect.
-/

namespace ForwardShading

open Glsl (Attribute Varying Output Uniform Stage)

/-- An attribute with its location and the format of its data. -/
structure LocatedAttribute where
  location : Nat
  decl : Attribute
  element : Option VertexElement
  deriving DecidableEq, Repr

/-- A varying with its location. -/
structure LocatedVarying where
  location : Nat
  decl : Varying
  deriving DecidableEq, Repr

/-- An output with its location. -/
structure LocatedOutput where
  location : Nat
  decl : Output
  deriving DecidableEq, Repr

/-- What the stages of a program declare. -/
structure Interface where
  attributes : List LocatedAttribute
  vertexVaryings : List LocatedVarying
  fragmentVaryings : List LocatedVarying
  outputs : List LocatedOutput
  uniforms : List Uniform
  tiers : ResourceTiers
  layout : ObjectLayout
  deriving DecidableEq, Repr

namespace Interface

/-- Finds the location of an attribute by its semantic, with the data that feed it. -/
def locate (d : Definition) (o : Surroundings) (a : Attribute) :
    Except DeclarationError LocatedAttribute :=
  match d.attributes.get? a.name with
  | none => .error (.unmappedAttribute a.name a.line)
  | some semantic =>
    match semantic.location? with
    | none => .error (.unmappedAttribute a.name a.line)
    | some location => .ok ⟨location, a, o.elements.get? semantic⟩

/-- Adds attributes to located ones. Each location is taken once. -/
def locateAttributes (d : Definition) (o : Surroundings) (located : List LocatedAttribute) :
    List Attribute → Except DeclarationError (List LocatedAttribute)
  | [] => .ok located
  | a :: as => do
    let l ← locate d o a
    match located.find? (·.location == l.location) with
    | some first => .error (.duplicateAttributeLocation l.location first.decl.name a.name)
    | none => locateAttributes d o (located ++ [l]) as

/-- Adds varyings to located ones. Each name is taken once. -/
def locateVaryings (located : List LocatedVarying) :
    List Varying → Except DeclarationError (List LocatedVarying)
  | [] => .ok located
  | v :: vs =>
    match located.find? (·.decl.name == v.name) with
    | some first => .error (.duplicateVarying v.name first.decl.line v.line)
    | none => locateVaryings (located ++ [⟨located.length, v⟩]) vs

/-- The location at which the vertex stage writes a varying of the fragment stage. -/
def matchVarying (sources : List LocatedVarying) (v : Varying) :
    Except DeclarationError LocatedVarying :=
  match sources.find? (·.decl.name == v.name) with
  | none => .error (.danglingVarying v.name v.line)
  | some s =>
    if s.decl.dataType = v.dataType then
      .ok ⟨s.location, v⟩
    else
      .error (.varyingMismatch v.name s.decl.line v.line)

/-- An output declaration of the vertex stage, which is a varying. -/
def varyingOfOutput (o : Output) : Except DeclarationError Varying :=
  Varying.parse o.line.toList

/-- Brings the declarations of two stages together. -/
def link (d : Definition) (o : Surroundings) (vertex fragment : Stage) :
    Except DeclarationError Interface := do
  let attributes ← locateAttributes d o [] vertex.attributes
  let vertexOutputs ← vertex.outputs.mapM varyingOfOutput
  let vertexVaryings ← locateVaryings [] (vertex.varyings ++ vertexOutputs)
  let fragmentVaryings ← fragment.varyings.mapM (matchVarying vertexVaryings)
  let uniforms ← Uniform.merge vertex.uniforms fragment.uniforms
  let layout ← ObjectLayout.allocate o.tiers uniforms
  return {
    attributes, vertexVaryings, fragmentVaryings, uniforms, layout
    outputs := fragment.outputs.zipIdx.map fun (output, location) => ⟨location, output⟩
    tiers := o.tiers }

/-- The names of the attributes by location. -/
def attributeNames (i : Interface) : OrderedMap Nat String :=
  .ofList (i.attributes.map fun a => (a.location, a.decl.name))

end Interface

end ForwardShading
