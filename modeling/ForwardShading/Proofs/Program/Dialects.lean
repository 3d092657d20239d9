import ForwardShading.Proofs.Program.Basic
import ForwardShading.Proofs.Program.Block

/-!
# Programs in two dialects

Stages are taken apart and linked without a look at the dialect.  It decides how a declaration block
is written: where the block stands in its stage text depends on the residual alone
(`Glsl.toList_splice`), and apart from its resources a block differs in the locations of varyings
only.  So a definition fails in both dialects with the same error, or gives programs that differ in
nothing but their blocks (`Program.build_dialects`).
-/

namespace ForwardShading

namespace BlockItem

/-- Whether an item declares uniforms or textures. -/
def isResource : BlockItem → Bool
  | uniformBlock .. => true
  | texture .. => true
  | sampler .. => true
  | combination .. => true
  | looseUniform _ => true
  | _ => false

/-- The item as it is where varyings are linked by name. -/
def withoutLocation : BlockItem → BlockItem
  | varying _ direction type name => varying none direction type name
  | item => item

theorem isResource_of_mem_ofResources {dialect : Dialect} {i : Interface} {item : BlockItem}
    (h : item ∈ ofResources dialect i) : item.isResource = true := by
  cases dialect with
  | fixedBinding =>
    obtain ⟨u, -, rfl⟩ := List.mem_map.1 h
    rfl
  | explicitBinding =>
    rcases mem_ofResources.1 h with ⟨tier, l, -, rfl⟩ | ⟨tier, g, -, t, -, h⟩
    · rfl
    · rcases mem_ofTexture.1 h with rfl | ⟨-, rfl⟩ | ⟨-, rfl⟩ <;> rfl

/-- Behind declarations that are no resources, the resources of a block are all of its resources. -/
theorem filter_append_ofResources {front : List BlockItem}
    (hfront : ∀ item ∈ front, item.isResource = false) (dialect : Dialect) (i : Interface) :
    (front ++ ofResources dialect i).filter (!·.isResource) = front := by
  rw [List.filter_append, List.filter_eq_self.2 fun item h => by rw [hfront item h]; rfl,
    List.filter_eq_nil_iff.2 fun item h => by rw [isResource_of_mem_ofResources h]; decide,
    List.append_nil]

/-- Only varyings have a location to leave out. -/
theorem map_withoutLocation_eq_self {items : List BlockItem}
    (h : ∀ item ∈ items, item.withoutLocation = item) : items.map withoutLocation = items := by
  rw [List.map_congr_left h, List.map_id']

theorem withoutLocation_of_mem_ofAttribute {a : LocatedAttribute} {item : BlockItem}
    (h : item ∈ ofAttribute a) : item.withoutLocation = item ∧ item.isResource = false := by
  rcases mem_ofAttribute h with ⟨type, name, rfl⟩ | ⟨type, source, rfl⟩ <;> exact ⟨rfl, rfl⟩

theorem map_withoutLocation_ofVaryings (direction : Direction) (varyings : List LocatedVarying) :
    (varyings.map (ofVarying .explicitBinding direction)).map withoutLocation =
      varyings.map (ofVarying .fixedBinding direction) := by
  rw [List.map_map]
  rfl

end BlockItem

namespace Interface

open BlockItem

variable (i : Interface)

/-- What stands in front of the resources of the vertex block is no resource. -/
theorem isResource_of_mem_vertexFront {dialect : Dialect} {item : BlockItem}
    (h : item ∈ i.attributes.flatMap ofAttribute ++ [gap] ++
      i.vertexVaryings.map (ofVarying dialect .output) ++ [gap]) : item.isResource = false := by
  simp only [List.mem_append, List.mem_flatMap, List.mem_map, List.mem_singleton] at h
  rcases h with ((⟨a, -, ha⟩ | rfl) | ⟨v, -, rfl⟩) | rfl
  · exact (withoutLocation_of_mem_ofAttribute ha).2
  all_goals rfl

theorem isResource_of_mem_fragmentFront {dialect : Dialect} {item : BlockItem}
    (h : item ∈ i.fragmentVaryings.map (ofVarying dialect .input) ++ [gap] ++
      i.outputs.map (fun o => output o.location o.decl.line) ++ [gap]) : item.isResource = false := by
  simp only [List.mem_append, List.mem_map, List.mem_singleton] at h
  rcases h with ((⟨v, -, rfl⟩ | rfl) | ⟨o, -, rfl⟩) | rfl <;> rfl

theorem filter_isResource_vertexBlock (dialect : Dialect) :
    (i.vertexBlock dialect).filter (!·.isResource) =
      i.attributes.flatMap ofAttribute ++ [gap] ++
        i.vertexVaryings.map (ofVarying dialect .output) ++ [gap] :=
  filter_append_ofResources (fun _ => i.isResource_of_mem_vertexFront) dialect i

theorem filter_isResource_fragmentBlock (dialect : Dialect) :
    (i.fragmentBlock dialect).filter (!·.isResource) =
      i.fragmentVaryings.map (ofVarying dialect .input) ++ [gap] ++
        i.outputs.map (fun o => output o.location o.decl.line) ++ [gap] :=
  filter_append_ofResources (fun _ => i.isResource_of_mem_fragmentFront) dialect i

/-- Both blocks declare the same resources. -/
theorem mem_blocks_of_isResource {dialect : Dialect} {item : BlockItem} (h : item.isResource = true) :
    (item ∈ i.vertexBlock dialect ↔ item ∈ ofResources dialect i) ∧
      (item ∈ i.fragmentBlock dialect ↔ item ∈ ofResources dialect i) := by
  refine ⟨List.mem_append.trans (or_iff_right fun hfront => ?_),
    List.mem_append.trans (or_iff_right fun hfront => ?_)⟩
  · rw [i.isResource_of_mem_vertexFront hfront] at h
    cases h
  · rw [i.isResource_of_mem_fragmentFront hfront] at h
    cases h

end Interface

/-- Holds of stage texts in the two dialects that are the same around their blocks.  The blocks are the
same up to their resources and the locations of varyings. -/
structure DiffersInBlock (fixed explicit : String) (fixedBlock explicitBlock : List BlockItem) :
    Prop where
  text : ∃ before after,
    fixed.toList = before ++ (BlockItem.blockText fixedBlock).toList ++ after ∧
      explicit.toList = before ++ (BlockItem.blockText explicitBlock).toList ++ after
  items : (explicitBlock.filter (!·.isResource)).map (·.withoutLocation) =
    fixedBlock.filter (!·.isResource)

namespace LinkedStages

open BlockItem

variable (s : LinkedStages) (name : String)

theorem differsInBlock_vertex :
    DiffersInBlock (s.program name .fixedBinding).vertex (s.program name .explicitBinding).vertex
      (s.interface.vertexBlock .fixedBinding) (s.interface.vertexBlock .explicitBinding) where
  text := ⟨_, _, Glsl.toList_splice _ _, Glsl.toList_splice _ _⟩
  items := by
    have hattributes : (s.interface.attributes.flatMap ofAttribute).map withoutLocation =
        s.interface.attributes.flatMap ofAttribute :=
      map_withoutLocation_eq_self fun item hitem => by
        obtain ⟨a, -, ha⟩ := List.mem_flatMap.1 hitem
        exact (withoutLocation_of_mem_ofAttribute ha).1
    simp only [Interface.filter_isResource_vertexBlock, List.map_append, hattributes,
      map_withoutLocation_ofVaryings]
    rfl

theorem differsInBlock_fragment :
    DiffersInBlock (s.program name .fixedBinding).fragment
      (s.program name .explicitBinding).fragment (s.interface.fragmentBlock .fixedBinding)
      (s.interface.fragmentBlock .explicitBinding) where
  text := ⟨_, _, Glsl.toList_splice _ _, Glsl.toList_splice _ _⟩
  items := by
    have houtputs : (s.interface.outputs.map fun o => output o.location o.decl.line).map
        withoutLocation = s.interface.outputs.map fun o => output o.location o.decl.line := by
      rw [List.map_map]
      rfl
    simp only [Interface.filter_isResource_fragmentBlock, List.map_append, houtputs,
      map_withoutLocation_ofVaryings]
    rfl

end LinkedStages

/-- A definition fails in both dialects with the same error, or gives programs that differ in nothing
but the declaration blocks of their stages. -/
theorem Program.build_dialects (d : Definition) (o : Surroundings) :
    (∃ e, build .fixedBinding d o = .error e ∧ build .explicitBinding d o = .error e) ∨
      ∃ s p q, LinkedStages.ofDefinition d o = .ok s ∧
        build .fixedBinding d o = .ok p ∧ build .explicitBinding d o = .ok q ∧
        p.name = q.name ∧ p.attributes = q.attributes ∧ p.layout = q.layout ∧
        DiffersInBlock p.vertex q.vertex (s.interface.vertexBlock .fixedBinding)
          (s.interface.vertexBlock .explicitBinding) ∧
        DiffersInBlock p.fragment q.fragment (s.interface.fragmentBlock .fixedBinding)
          (s.interface.fragmentBlock .explicitBinding) := by
  cases hs : LinkedStages.ofDefinition d o with
  | error cause => exact .inl ⟨⟨d.name, cause⟩, by rw [build, hs], by rw [build, hs]⟩
  | ok s =>
    exact .inr ⟨s, _, _, rfl, build_eq_ok hs, build_eq_ok hs, rfl, rfl, rfl,
      s.differsInBlock_vertex d.name, s.differsInBlock_fragment d.name⟩

end ForwardShading
