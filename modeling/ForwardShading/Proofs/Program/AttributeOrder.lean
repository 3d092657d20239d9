import ForwardShading.Proofs.OrderedMap
import ForwardShading.Proofs.Program.Dialects
import ForwardShading.Proofs.Program.Violations

/-!
# The order of attributes

Each attribute is at the location of its semantic, where the map of attributes has its name
(`Interface.Links.get?_attributeNames`) and the vertex block declares it
(`Interface.exists_vertexBlock_eq`).  Linking asks of all attributes that their locations are
different, which no order of them decides (`Interface.Linkable.permute`).  So definitions that declare
the same attributes in another order are built alike (`Program.build_permuted`).
-/

namespace ForwardShading

open Glsl (Attribute Stage)

/-- The format of the data that feeds an attribute. -/
def Definition.element? (d : Definition) (o : Surroundings) (a : Attribute) : Option VertexElement :=
  (d.attributes.get? a.name).bind (o.elements.get? ·)

/-! ## What is located -/

namespace Interface

variable {d : Definition} {o : Surroundings}

theorem locate_eq_ok_iff {a : Attribute} {l : LocatedAttribute} :
    locate d o a = .ok l ↔
      ∃ location, d.location? a = some location ∧ l = ⟨location, a, d.element? o a⟩ := by
  unfold locate Definition.location? Definition.element?
  cases d.attributes.get? a.name with
  | none => simp
  | some semantic => cases hlocation : semantic.location? <;> simp [hlocation, eq_comm]

variable {vertex fragment : Stage} {outs : List Glsl.Varying} {i : Interface}

/-- Each attribute is located by itself, and they keep their order. -/
theorem Links.mapM_locate (h : Links d o vertex fragment outs i) :
    vertex.attributes.mapM (locate d o) = .ok i.attributes :=
  (locateAttributes_eq_ok h.attributes).1

theorem Links.perm_attributeNames (h : Links d o vertex fragment outs i) :
    i.attributeNames.entries.Perm (i.attributes.map fun a => (a.location, a.decl.name)) := by
  refine OrderedMap.perm_entries_ofList ?_
  rw [List.map_map]
  exact (locateAttributes_eq_ok h.attributes).2

theorem Links.get?_attributeNames (h : Links d o vertex fragment outs i) (location : Nat)
    (name : String) :
    i.attributeNames.get? location = some name ↔
      ∃ a ∈ vertex.attributes, d.location? a = some location ∧ a.name = name := by
  rw [OrderedMap.get?_eq_some_iff, h.perm_attributeNames.mem_iff, List.mem_map]
  constructor
  · rintro ⟨l, hl, heq⟩
    obtain ⟨a, ha, hlocate⟩ := exists_of_mem_mapM h.mapM_locate hl
    obtain ⟨location', hlocation, rfl⟩ := locate_eq_ok_iff.1 hlocate
    cases heq
    exact ⟨a, ha, hlocation, rfl⟩
  · rintro ⟨a, ha, hlocation, rfl⟩
    obtain ⟨l, hl, hlocate⟩ := exists_mem_of_mapM h.mapM_locate ha
    obtain ⟨location', hlocation', rfl⟩ := locate_eq_ok_iff.1 hlocate
    rw [hlocation] at hlocation'
    cases hlocation'
    exact ⟨_, hl, rfl⟩

theorem Links.length_attributeNames (h : Links d o vertex fragment outs i) :
    i.attributeNames.entries.length = vertex.attributes.length := by
  rw [h.perm_attributeNames.length_eq, List.length_map]
  exact (mapM_eq_ok.1 h.mapM_locate).length_eq.symm

end Interface

/-! ## What is declared -/

/-- The declaration of an attribute at a location, as items and as the lines that are written for
them: its own, or that of an integer variable with a private name, from which it is converted. -/
inductive DeclaredAt (a : Attribute) (element? : Option VertexElement) (location : Nat) :
    List BlockItem → List String → Prop
  | itself (h : element?.filter (·.needsIntegerAttribute) = none) :
    DeclaredAt a element? location [.input location a.typeName a.name]
      [lineAt location ("in " ++ a.typeName ++ " " ++ a.name)]
  | converted {e : VertexElement} {type : String}
    (h : element?.filter (·.needsIntegerAttribute) = some e)
    (htype : BlockItem.floatType a.componentCount = type) :
    DeclaredAt a element? location
      [.input location (e.integerType a.componentCount) ("_private_" ++ a.name),
        .conversion type a.name ("_private_" ++ a.name)]
      [lineAt location ("in " ++ e.integerType a.componentCount ++ " " ++ ("_private_" ++ a.name)),
        type ++ " " ++ a.name ++ " = " ++ type ++ "(" ++ ("_private_" ++ a.name) ++ ");\n"]

theorem declaredAt_ofAttribute (l : LocatedAttribute) :
    DeclaredAt l.decl l.element l.location (BlockItem.ofAttribute l)
      ((BlockItem.ofAttribute l).map (·.text)) := by
  unfold BlockItem.ofAttribute
  split
  case h_1 e he =>
    rw [List.map_cons, List.map_singleton, BlockItem.text_input, BlockItem.text_conversion]
    exact .converted he rfl
  case h_2 hnone =>
    rw [List.map_singleton, BlockItem.text_input]
    exact .itself hnone

/-- Whether an item declares what the vertex stage reads. -/
def BlockItem.isInput : BlockItem → Bool
  | input .. => true
  | _ => false

/-- A vertex block declares the attributes, each in its place, and then reads nothing more. -/
theorem Interface.exists_vertexBlock_eq (dialect : Dialect) (i : Interface) :
    ∃ rest, i.vertexBlock dialect = (i.attributes.map BlockItem.ofAttribute).flatten ++ rest ∧
      ∀ item ∈ rest, item.isInput = false := by
  refine ⟨[.gap] ++ i.vertexVaryings.map (BlockItem.ofVarying dialect .output) ++ [.gap] ++
    BlockItem.ofResources dialect i, ?_, ?_⟩
  · simp only [vertexBlock, List.flatMap_def, List.append_assoc]
  · intro item hitem
    simp only [List.mem_append, List.mem_map, List.mem_singleton] at hitem
    rcases hitem with ((rfl | ⟨v, -, rfl⟩) | rfl) | hitem
    · rfl
    · rfl
    · rfl
    · have hresource := BlockItem.isResource_of_mem_ofResources hitem
      cases item <;> first | rfl | cases hresource

/-- Holds of a program whose attributes are those of a vertex stage: each is there at the location of
its semantic, under its name in the map and in the text of the stage. -/
structure Program.HasAttributes (d : Definition) (o : Surroundings) (vertex : Stage) (p : Program) :
    Prop where
  get?_iff : ∀ location name, p.attributes.get? location = some name ↔
    ∃ a ∈ vertex.attributes, d.location? a = some location ∧ a.name = name
  length : p.attributes.entries.length = vertex.attributes.length
  text : ∃ parts rest, vertex.Holds (parts.flatten ++ rest) p.vertex ∧
    List.Forall₂ (fun a items => ∃ location, d.location? a = some location ∧
      DeclaredAt a (d.element? o a) location items (items.map (·.text))) vertex.attributes parts ∧
    ∀ item ∈ rest, item.isInput = false

theorem LinkedStages.hasAttributes {d : Definition} {o : Surroundings} {s : LinkedStages}
    (h : ofDefinition d o = .ok s) (name : String) (dialect : Dialect) :
    (s.program name dialect).HasAttributes d o s.vertex := by
  obtain ⟨outs, hlinks⟩ := exists_links h
  refine ⟨hlinks.get?_attributeNames, hlinks.length_attributeNames, ?_⟩
  obtain ⟨rest, hblock, hrest⟩ := s.interface.exists_vertexBlock_eq dialect
  refine ⟨s.interface.attributes.map BlockItem.ofAttribute, rest, ?_, ?_, hrest⟩
  · rw [← hblock]
    exact s.holds_vertex name dialect
  · rw [List.forall₂_map_right_iff]
    refine (mapM_eq_ok.1 hlinks.mapM_locate).imp fun a l hl => ?_
    obtain ⟨location, hlocation, rfl⟩ := Interface.locate_eq_ok_iff.1 hl
    exact ⟨location, hlocation, declaredAt_ofAttribute ⟨location, a, d.element? o a⟩⟩

/-! ## Another order -/

/-- What a stage declares besides its attributes. -/
def Glsl.Stage.besidesAttributes (s : Stage) :
    List Glsl.Varying × List Glsl.Output × List Glsl.Uniform :=
  (s.varyings, s.outputs, s.uniforms)

/-- Holds of definitions that give their attributes the same meaning, and that declare the same but
for the order of the attributes. -/
structure Definition.Permuted (d d' : Definition) : Prop where
  attributes : d.attributes = d'.attributes
  vertex : ∃ s s', Stage.ofSource d.vertex = .ok s ∧ Stage.ofSource d'.vertex = .ok s' ∧
    s.attributes.Perm s'.attributes ∧ s.besidesAttributes = s'.besidesAttributes
  fragment : Stage.besidesAttributes <$> Stage.ofSource d.fragment =
    Stage.besidesAttributes <$> Stage.ofSource d'.fragment

theorem Definition.Permuted.symm {d d' : Definition} (h : d.Permuted d') : d'.Permuted d := by
  obtain ⟨s, s', hs, hs', hperm, hbesides⟩ := h.vertex
  exact ⟨h.attributes.symm, ⟨s', s, hs', hs, hperm.symm, hbesides.symm⟩, h.fragment.symm⟩

theorem Definition.location?_congr {d d' : Definition} (h : d.attributes = d'.attributes) :
    d.location? = d'.location? := by
  funext a
  rw [location?, location?, h]

/-- The order of attributes does not matter for linking. -/
theorem Interface.Linkable.permute {d d' : Definition} {o : Surroundings}
    {vertex vertex' fragment fragment' : Stage} (h : Linkable d o vertex fragment)
    (hd : d.attributes = d'.attributes) (hperm : vertex.attributes.Perm vertex'.attributes)
    (hvertex : vertex.besidesAttributes = vertex'.besidesAttributes)
    (hfragment : fragment.besidesAttributes = fragment'.besidesAttributes) :
    Linkable d' o vertex' fragment' := by
  have hlocation := Definition.location?_congr hd
  simp only [Stage.besidesAttributes, Prod.mk.injEq] at hvertex hfragment
  obtain ⟨hvaryings, houtputs, huniforms⟩ := hvertex
  obtain ⟨hvaryings', -, huniforms'⟩ := hfragment
  have hwritten : vertex.written = vertex'.written := by
    rw [Stage.written, Stage.written, hvaryings, houtputs]
  exact {
    located := fun a ha => hlocation ▸ h.located a (hperm.mem_iff.2 ha)
    locations := hlocation ▸ (hperm.map d.location?).nodup_iff.1 h.locations
    names := hwritten ▸ h.names
    sources := hwritten ▸ hvaryings' ▸ h.sources
    lines := huniforms ▸ huniforms' ▸ h.lines
    types := huniforms ▸ huniforms' ▸ h.types
    size := huniforms ▸ huniforms' ▸ h.size }

theorem LinkedStages.ofDefinition_permute {d d' : Definition} (h : d.Permuted d')
    {o : Surroundings} (hd : ∃ s, ofDefinition d o = .ok s) : ∃ s, ofDefinition d' o = .ok s := by
  obtain ⟨vertex, fragment, hvertex, hfragment, hlinkable⟩ := exists_ofDefinition_iff.1 hd
  obtain ⟨s, s', hs, hs', hperm, hbesides⟩ := h.vertex
  obtain rfl : s = vertex := Except.ok.inj (hs.symm.trans hvertex)
  obtain ⟨fragment', hfragment', hsame⟩ :=
    map_eq_ok.1 (h.fragment.symm.trans (congrArg (Stage.besidesAttributes <$> ·) hfragment))
  exact exists_ofDefinition_iff.2 ⟨s', fragment', hs', hfragment',
    hlinkable.permute h.attributes hperm hbesides hsame.symm⟩

namespace Program

variable {dialect : Dialect} {d d' : Definition} {o : Surroundings} {p : Program}

theorem build_permute (h : d.Permuted d') (hp : ∃ p, build dialect d o = .ok p) :
    ∃ p, build dialect d' o = .ok p := by
  obtain ⟨p, hp⟩ := hp
  obtain ⟨s, hs, -⟩ := exists_of_build_eq_ok hp
  obtain ⟨s', hs'⟩ := LinkedStages.ofDefinition_permute h ⟨s, hs⟩
  exact ⟨_, build_eq_ok hs'⟩

theorem hasAttributes_of_build_eq_ok {vertex : Stage} (hvertex : Stage.ofSource d.vertex = .ok vertex)
    (hp : build dialect d o = .ok p) : p.HasAttributes d o vertex := by
  obtain ⟨s, hs, rfl⟩ := exists_of_build_eq_ok hp
  obtain rfl : vertex = s.vertex :=
    Except.ok.inj (hvertex.symm.trans (LinkedStages.of_ofDefinition hs).1)
  exact LinkedStages.hasAttributes hs d.name dialect

/-- Two programs that declare the same attributes, in whatever order, have the same locations of
attributes. -/
theorem HasAttributes.attributes_eq {vertex vertex' : Stage} {p' : Program}
    (h : p.HasAttributes d o vertex) (h' : p'.HasAttributes d' o vertex')
    (hd : d.attributes = d'.attributes) (hperm : vertex.attributes.Perm vertex'.attributes) :
    p.attributes = p'.attributes := by
  refine OrderedMap.ext_get? fun location name => ?_
  rw [h.get?_iff, h'.get?_iff, Definition.location?_congr hd]
  simp only [hperm.mem_iff]

/-- The order in which attributes are declared does not decide whether a program is built, nor at which
locations it has its attributes. -/
theorem build_permuted (h : d.Permuted d') (dialect : Dialect) (o : Surroundings) :
    ((∃ p, build dialect d o = .ok p) ↔ ∃ p', build dialect d' o = .ok p') ∧
      ∀ p p', build dialect d o = .ok p → build dialect d' o = .ok p' →
        p.attributes = p'.attributes ∧
          (∃ vertex, Stage.ofSource d.vertex = .ok vertex ∧ p.HasAttributes d o vertex) ∧
          ∃ vertex', Stage.ofSource d'.vertex = .ok vertex' ∧ p'.HasAttributes d' o vertex' := by
  refine ⟨⟨build_permute h, build_permute h.symm⟩, fun p p' hp hp' => ?_⟩
  obtain ⟨vertex, vertex', hvertex, hvertex', hperm, -⟩ := h.vertex
  have hattributes := hasAttributes_of_build_eq_ok hvertex hp
  have hattributes' := hasAttributes_of_build_eq_ok hvertex' hp'
  exact ⟨hattributes.attributes_eq hattributes' h.attributes hperm, ⟨vertex, hvertex, hattributes⟩,
    vertex', hvertex', hattributes'⟩

/-- Both definitions have bones at a location that a generic attribute shares with them, as integer
data, but one of them declares them first. -/
theorem build_permuted_boned :
    let attributes : OrderedMap String Semantic :=
      .ofList [("vertex_position", .position), ("vertex_bones", .generic 3)]
    let d : Definition := ⟨"boned",
      "attribute vec3 vertex_position;\nattribute vec4 vertex_bones;\nvoid main() {}\n", "",
      attributes⟩
    let d' : Definition := ⟨"bent",
      "attribute vec4 vertex_bones;\nattribute vec3 vertex_position;\nvoid main() {}\n", "",
      attributes⟩
    let o : Surroundings := ⟨[], .ofList [(.generic 3, ⟨.uint8, false, false⟩)]⟩
    d.Permuted d' ∧ ∃ p p', build .fixedBinding d o = .ok p ∧ build .fixedBinding d' o = .ok p' ∧
      p.attributes.entries = [(0, "vertex_position"), (3, "vertex_bones")] ∧
      p.attributes = p'.attributes ∧
      p.vertex = "layout(location = 0) in vec3 vertex_position;\n" ++
        "layout(location = 3) in uvec4 _private_vertex_bones;\n" ++
        "vec4 vertex_bones = vec4(_private_vertex_bones);\n\n\n\nvoid main() \x7b\x7d\n" := by
  intro attributes d d' o
  let position : Attribute := ⟨"vec3 vertex_position", none, "vec3", "vertex_position"⟩
  let bones : Attribute := ⟨"vec4 vertex_bones", none, "vec4", "vertex_bones"⟩
  obtain ⟨s, hs, hdeclared⟩ := map_eq_ok.1 (show (fun s => (s.attributes, s.besidesAttributes)) <$>
      Stage.ofSource d.vertex = .ok ([position, bones], [], [], []) by decide +kernel)
  obtain ⟨s', hs', hdeclared'⟩ := map_eq_ok.1 (show (fun s => (s.attributes, s.besidesAttributes)) <$>
      Stage.ofSource d'.vertex = .ok ([bones, position], [], [], []) by decide +kernel)
  obtain ⟨hattributes, hbesides⟩ := Prod.mk.inj hdeclared
  obtain ⟨hattributes', hbesides'⟩ := Prod.mk.inj hdeclared'
  have hperm : s.attributes.Perm s'.attributes := by
    rw [hattributes, hattributes']
    exact .swap _ _ _
  have h : d.Permuted d' := ⟨rfl, ⟨s, s', hs, hs', hperm, hbesides.trans hbesides'.symm⟩, rfl⟩
  obtain ⟨hbuild, hbuilt⟩ := build_permuted h .fixedBinding o
  obtain ⟨p, hp, hprogram⟩ := map_eq_ok.1 (show (fun p => (p.attributes.entries, p.vertex)) <$>
      build .fixedBinding d o = .ok ([(0, "vertex_position"), (3, "vertex_bones")],
        "layout(location = 0) in vec3 vertex_position;\n" ++
          "layout(location = 3) in uvec4 _private_vertex_bones;\n" ++
          "vec4 vertex_bones = vec4(_private_vertex_bones);\n\n\n\nvoid main() \x7b\x7d\n") by
    decide +kernel)
  obtain ⟨hentries, htext⟩ := Prod.mk.inj hprogram
  obtain ⟨p', hp'⟩ := hbuild.1 ⟨p, hp⟩
  exact ⟨h, p, p', hp, hp', hentries, (hbuilt p p' hp hp').1, htext⟩

end Program

end ForwardShading
