import ForwardShading.Program.Basic
import ForwardShading.Proofs.Binding.ObjectLayout

/-!
# Built programs

What a program that was built is.  Every step of linking its stages has given a part of its interface
(`Interface.Links`); it is in the dialect that it was built in, and its object buffer has a sound
layout.  Its texts are what the stages keep, with the items of a block one behind the other in between
(`LinkedStages.holds_vertex`, `LinkedStages.holds_fragment`).
-/

namespace ForwardShading

namespace Glsl

open Text

/-- The texts in front of a block that is spliced into a residual, and behind it. -/
def around (residual : String) : List Char × List Char :=
  match breakOn marker residual.toList with
  | some parts => parts
  | none =>
    let (head, tail) := splitVersion residual.toList
    (head ++ missingNewline head, tail)

theorem toList_splice (residual block : String) :
    (splice residual block).toList =
      (around residual).1 ++ block.toList ++ (around residual).2 := by
  unfold splice around
  rw [String.toList_ofList]
  cases breakOn marker residual.toList with
  | some parts => rfl
  | none => rfl

/-- Holds of a text that has what a stage keeps, and in it the texts of some items one behind the
other. -/
def Stage.Holds (s : Stage) (items : List BlockItem) (text : String) : Prop :=
  text.toList = (around s.residual).1 ++ items.flatMap (·.text.toList) ++ (around s.residual).2

theorem Stage.holds_splice (s : Stage) (items : List BlockItem) :
    s.Holds items (splice s.residual (BlockItem.blockText items)) := by
  rw [Holds, toList_splice, BlockItem.blockText, String.toList_join, List.flatMap_map]

end Glsl

namespace Interface

open Glsl (Varying Stage Uniform)

/-- What each step of linking two stages has given.  The outputs of the vertex stage are read as
varyings. -/
structure Links (d : Definition) (o : Surroundings) (vertex fragment : Stage)
    (outs : List Varying) (i : Interface) : Prop where
  attributes : locateAttributes d o [] vertex.attributes = .ok i.attributes
  vertexOutputs : vertex.outputs.mapM varyingOfOutput = .ok outs
  vertexVaryings : locateVaryings [] (vertex.varyings ++ outs) = .ok i.vertexVaryings
  fragmentVaryings :
    fragment.varyings.mapM (matchVarying i.vertexVaryings) = .ok i.fragmentVaryings
  outputs : i.outputs = fragment.outputs.zipIdx.map fun (output, n) => ⟨n, output⟩
  uniforms : Uniform.merge vertex.uniforms fragment.uniforms = .ok i.uniforms
  layout : ObjectLayout.allocate o.tiers i.uniforms = .ok i.layout
  tiers : i.tiers = o.tiers

theorem exists_links {d : Definition} {o : Surroundings} {vertex fragment : Stage} {i : Interface}
    (h : link d o vertex fragment = .ok i) : ∃ outs, Links d o vertex fragment outs i := by
  obtain ⟨attributes, hattributes, h⟩ := bind_eq_ok.1 h
  obtain ⟨outs, houts, h⟩ := bind_eq_ok.1 h
  obtain ⟨vertexVaryings, hvertex, h⟩ := bind_eq_ok.1 h
  obtain ⟨fragmentVaryings, hfragment, h⟩ := bind_eq_ok.1 h
  obtain ⟨uniforms, huniforms, h⟩ := bind_eq_ok.1 h
  obtain ⟨layout, hlayout, h⟩ := bind_eq_ok.1 h
  cases h
  exact ⟨outs, hattributes, houts, hvertex, hfragment, rfl, huniforms, hlayout, rfl⟩

end Interface

/-- Linked stages come from the two texts of a definition. -/
theorem LinkedStages.of_ofDefinition {d : Definition} {o : Surroundings} {s : LinkedStages}
    (h : ofDefinition d o = .ok s) :
    Glsl.Stage.ofSource d.vertex = .ok s.vertex ∧ Glsl.Stage.ofSource d.fragment = .ok s.fragment ∧
      Interface.link d o s.vertex s.fragment = .ok s.interface := by
  obtain ⟨vertex, hvertex, h⟩ := bind_eq_ok.1 h
  obtain ⟨fragment, hfragment, h⟩ := bind_eq_ok.1 h
  obtain ⟨interface, hlink, h⟩ := bind_eq_ok.1 h
  cases h
  exact ⟨hvertex, hfragment, hlink⟩

theorem LinkedStages.exists_links {d : Definition} {o : Surroundings} {s : LinkedStages}
    (h : ofDefinition d o = .ok s) :
    ∃ outs, Interface.Links d o s.vertex s.fragment outs s.interface :=
  Interface.exists_links (of_ofDefinition h).2.2

theorem LinkedStages.holds_vertex (s : LinkedStages) (name : String) (dialect : Dialect) :
    s.vertex.Holds (s.interface.vertexBlock dialect) (s.program name dialect).vertex :=
  s.vertex.holds_splice _

theorem LinkedStages.holds_fragment (s : LinkedStages) (name : String) (dialect : Dialect) :
    s.fragment.Holds (s.interface.fragmentBlock dialect) (s.program name dialect).fragment :=
  s.fragment.holds_splice _

namespace Program

variable {dialect : Dialect} {d : Definition} {o : Surroundings} {p : Program}

/-- A program comes from stages that were taken apart and linked. -/
theorem exists_of_build_eq_ok (h : build dialect d o = .ok p) :
    ∃ s, LinkedStages.ofDefinition d o = .ok s ∧ p = s.program d.name dialect := by
  unfold build at h
  cases hs : LinkedStages.ofDefinition d o with
  | error cause =>
    rw [hs] at h
    cases h
  | ok s =>
    rw [hs] at h
    cases h
    exact ⟨s, rfl, rfl⟩

theorem build_eq_ok {s : LinkedStages} (h : LinkedStages.ofDefinition d o = .ok s) :
    build dialect d o = .ok (s.program d.name dialect) := by
  rw [build, h]

theorem dialect_of_build_eq_ok (h : build dialect d o = .ok p) : p.dialect = dialect := by
  obtain ⟨s, -, rfl⟩ := exists_of_build_eq_ok h
  rfl

theorem sound_of_build_eq_ok (h : build dialect d o = .ok p) : p.layout.uniforms.Sound := by
  obtain ⟨s, hs, rfl⟩ := exists_of_build_eq_ok h
  obtain ⟨outs, hlinks⟩ := LinkedStages.exists_links hs
  exact ObjectLayout.sound_allocate hlinks.layout (Glsl.Uniform.nodup_merge hlinks.uniforms)

end Program

end ForwardShading
