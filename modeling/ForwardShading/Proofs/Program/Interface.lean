import ForwardShading.Program.Basic
import ForwardShading.Proofs.Checked

/-!
# What an interface depends on

A program is written over two texts, but its interface depends on each text only through what the
text declares (`Program.build_congr`).
-/

namespace ForwardShading

/-- What a stage declares is what the pieces of its text declare. -/
theorem Glsl.Stage.declarations_ofSource (source : String) :
    (·.declarations) <$> ofSource source = Piece.declarations (scan .start source.toList) := by
  rw [ofSource]
  cases Piece.declarations (scan .start source.toList) <;> rfl

namespace Interface

variable {d d' : Definition} {o : Surroundings}

theorem locateAttributes_congr (h : d.attributes = d'.attributes) (located : List LocatedAttribute)
    (as : List Glsl.Attribute) :
    locateAttributes d o located as = locateAttributes d' o located as := by
  induction as generalizing located with
  | nil => rfl
  | cons a as ih => simp only [locateAttributes, locate, h, ih]

theorem link_congr (h : d.attributes = d'.attributes)
    {vertex vertex' fragment fragment' : Glsl.Stage}
    (hv : vertex.declarations = vertex'.declarations)
    (hf : fragment.declarations = fragment'.declarations) :
    link d o vertex fragment = link d' o vertex' fragment' := by
  simp only [link, locateAttributes_congr h, Glsl.Stage.attributes, Glsl.Stage.varyings,
    Glsl.Stage.outputs, Glsl.Stage.uniforms, hv, hf]

end Interface

/-- Holds of definitions that have the same name and declare the same in each stage. -/
structure Definition.DeclaresSame (d d' : Definition) : Prop where
  name : d.name = d'.name
  attributes : d.attributes = d'.attributes
  vertex : (·.declarations) <$> Glsl.Stage.ofSource d.vertex =
    (·.declarations) <$> Glsl.Stage.ofSource d'.vertex
  fragment : (·.declarations) <$> Glsl.Stage.ofSource d.fragment =
    (·.declarations) <$> Glsl.Stage.ofSource d'.fragment

theorem LinkedStages.interface_ofDefinition (d : Definition) (o : Surroundings) :
    (·.interface) <$> ofDefinition d o = (do
      let vertex ← Glsl.Stage.ofSource d.vertex
      let fragment ← Glsl.Stage.ofSource d.fragment
      Interface.link d o vertex fragment) := by
  simp only [ofDefinition, map_bind, map_pure, bind_pure]

theorem LinkedStages.interface_ofDefinition_congr {d d' : Definition} (h : d.DeclaresSame d')
    (o : Surroundings) :
    (·.interface) <$> ofDefinition d o = (·.interface) <$> ofDefinition d' o := by
  rw [interface_ofDefinition, interface_ofDefinition]
  refine bind_eq_bind_of_map_eq h.vertex fun vertex vertex' hv => ?_
  exact bind_eq_bind_of_map_eq h.fragment fun fragment fragment' hf =>
    Interface.link_congr h.attributes hv hf

/-- Definitions that declare the same fail alike, or give programs that ask the same of their draws:
the same attributes at the same locations, and the same resources of an object. -/
theorem Program.build_congr {d d' : Definition} (h : d.DeclaresSame d') (dialect : Dialect)
    (o : Surroundings) :
    (∃ e, build dialect d o = .error e ∧ build dialect d' o = .error e) ∨
      ∃ p p', build dialect d o = .ok p ∧ build dialect d' o = .ok p' ∧
        p.attributes = p'.attributes ∧ p.layout = p'.layout := by
  unfold build
  rcases map_eq_map_iff.1 (LinkedStages.interface_ofDefinition_congr h o) with
    ⟨cause, hs, hs'⟩ | ⟨s, s', hs, hs', hinterface⟩
  · rw [hs, hs', h.name]
    exact .inl ⟨_, rfl, rfl⟩
  · rw [hs, hs']
    exact .inr ⟨_, _, rfl, rfl, congrArg Interface.attributeNames hinterface,
      congrArg Interface.layout hinterface⟩

end ForwardShading
