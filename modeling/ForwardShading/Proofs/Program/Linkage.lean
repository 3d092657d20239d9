import ForwardShading.Proofs.Program.Basic
import ForwardShading.Proofs.Program.Block

/-!
# How stages link

Vertex varyings have different names and are numbered in order (`Interface.locateVaryings_eq_ok`), and
a fragment varying has the number of the vertex varying that it names
(`Interface.matchVarying_eq_ok`).  So with explicit locations, what the fragment stage reads is what
the vertex stage writes under the same name and with the same type (`Program.exists_linkedBy`).
-/

namespace ForwardShading

open Glsl (Varying)

namespace Interface

/-- Varyings that could all be located have different names, and are numbered in order. -/
theorem locateVaryings_eq_ok {located rs : List LocatedVarying} {vs : List Varying}
    (h : locateVaryings located vs = .ok rs) (hnodup : (located.map (·.decl.name)).Nodup) :
    rs = located ++ (vs.zipIdx located.length).map (fun (v, n) => ⟨n, v⟩) ∧
      (rs.map (·.decl.name)).Nodup := by
  induction vs generalizing located with
  | nil =>
    cases h
    exact ⟨(List.append_nil _).symm, hnodup⟩
  | cons v vs ih =>
    rw [locateVaryings] at h
    cases hfind : located.find? (·.decl.name == v.name) with
    | some first =>
      rw [hfind] at h
      cases h
    | none =>
      rw [hfind] at h
      obtain ⟨rfl, hrs⟩ := ih h (nodup_map_concat hnodup (find?_key_eq_none.1 hfind))
      exact ⟨by simp, hrs⟩

theorem matchVarying_eq_ok {sources : List LocatedVarying} {v : Varying} {l : LocatedVarying}
    (h : matchVarying sources v = .ok l) :
    ∃ s ∈ sources, s.decl.name = v.name ∧ s.decl.dataType = v.dataType ∧ l = ⟨s.location, v⟩ := by
  unfold matchVarying at h
  cases hfind : sources.find? (·.decl.name == v.name) with
  | none =>
    rw [hfind] at h
    cases h
  | some s =>
    rw [hfind] at h
    by_cases htype : s.decl.dataType = v.dataType
    · simp only [htype, if_true] at h
      cases h
      exact ⟨s, List.mem_of_find?_eq_some hfind, by simpa using List.find?_some hfind, htype, rfl⟩
    · simp only [htype, if_false] at h
      cases h

end Interface

/-! ## What blocks declare between stages -/

namespace BlockItem

/-- Whether an item declares what a stage hands on or is handed: a variable between the stages, or an
output of the last one. -/
def isStageVariable : BlockItem → Bool
  | varying .. => true
  | output .. => true
  | _ => false

theorem filter_ofAttributes (attributes : List LocatedAttribute) :
    (attributes.flatMap ofAttribute).filter isStageVariable = [] := by
  refine List.filter_eq_nil_iff.2 fun item hitem => ?_
  obtain ⟨a, -, hitem⟩ := List.mem_flatMap.1 hitem
  rcases mem_ofAttribute hitem with ⟨type, name, rfl⟩ | ⟨type, source, rfl⟩ <;>
    simp [isStageVariable]

theorem filter_ofResources (i : Interface) :
    (ofResources .explicitBinding i).filter isStageVariable = [] := by
  refine List.filter_eq_nil_iff.2 fun item hitem => ?_
  rcases mem_ofResources.1 hitem with ⟨tier, l, -, rfl⟩ | ⟨tier, g, -, t, -, hitem⟩
  · simp [ofLayout, isStageVariable]
  · rcases mem_ofTexture.1 hitem with rfl | ⟨-, rfl⟩ | ⟨-, rfl⟩ <;> simp [isStageVariable]

theorem filter_ofVaryings (dialect : Dialect) (direction : Direction)
    (varyings : List LocatedVarying) :
    (varyings.map (ofVarying dialect direction)).filter isStageVariable =
      varyings.map (ofVarying dialect direction) := by
  refine List.filter_eq_self.2 fun item hitem => ?_
  obtain ⟨v, -, rfl⟩ := List.mem_map.1 hitem
  rfl

end BlockItem

namespace Interface

open BlockItem

variable (i : Interface)

theorem filter_vertexBlock :
    (i.vertexBlock .explicitBinding).filter isStageVariable =
      i.vertexVaryings.map (ofVarying .explicitBinding .output) := by
  simp [vertexBlock, List.filter_append, filter_ofAttributes, filter_ofVaryings, filter_ofResources,
    isStageVariable]

theorem filter_fragmentBlock :
    (i.fragmentBlock .explicitBinding).filter isStageVariable =
      i.fragmentVaryings.map (ofVarying .explicitBinding .input) ++
        i.outputs.map fun o => .output o.location o.decl.line := by
  have houtputs : (i.outputs.map fun o => BlockItem.output o.location o.decl.line).filter
      isStageVariable = i.outputs.map fun o => .output o.location o.decl.line :=
    List.filter_eq_self.2 fun item hitem => by
      obtain ⟨o, -, rfl⟩ := List.mem_map.1 hitem
      rfl
  simp [fragmentBlock, List.filter_append, filter_ofVaryings, houtputs, filter_ofResources,
    isStageVariable]

end Interface

/-- Holds of stages that are linked by location: the vertex stage writes each of `sources` at its
place in the list, and the fragment stage reads each of its varyings at the place of the source with
its name, which has its type.  The outputs of the fragment stage are numbered in their order.  Each of
them has the line that declares it at its place. -/
structure LinkedStages.LinkedBy (s : LinkedStages) (sources : List Varying) : Prop where
  nodup : (sources.map (·.name)).Nodup
  vertex : List.Forall₂ (fun (v, n) item =>
      item = .varying (some n) .output v.qualifiedType v.name ∧
        item.text = lineAt n ("out " ++ v.qualifiedType ++ " " ++ v.name))
    sources.zipIdx ((s.interface.vertexBlock .explicitBinding).filter (·.isStageVariable))
  fragment : ∃ inputs outputs,
    (s.interface.fragmentBlock .explicitBinding).filter (·.isStageVariable) = inputs ++ outputs ∧
    List.Forall₂ (fun v item => ∃ n w, sources[n]? = some w ∧ w.name = v.name ∧
        w.dataType = v.dataType ∧ item = .varying (some n) .input v.qualifiedType v.name ∧
          item.text = lineAt n ("in " ++ v.qualifiedType ++ " " ++ v.name))
      s.fragment.varyings inputs ∧
    List.Forall₂ (fun (o, n) item => item = .output n o.line ∧ item.text = lineAt n ("out " ++ o.line))
      s.fragment.outputs.zipIdx outputs

theorem Interface.Links.linkedBy {d : Definition} {o : Surroundings} {s : LinkedStages}
    {outs : List Varying} (h : Links d o s.vertex s.fragment outs s.interface) :
    s.LinkedBy (s.vertex.varyings ++ outs) := by
  obtain ⟨hvertex, hnodup⟩ := locateVaryings_eq_ok h.vertexVaryings List.nodup_nil
  rw [List.nil_append, List.length_nil] at hvertex
  constructor
  case nodup =>
    have hnames : (s.vertex.varyings ++ outs).map (·.name) =
        ((s.vertex.varyings ++ outs).zipIdx.map Prod.fst).map (·.name) := by
      rw [List.zipIdx_map_fst]
    rw [hvertex, List.map_map] at hnodup
    rw [hnames, List.map_map]
    exact hnodup
  case vertex =>
    rw [filter_vertexBlock, hvertex, List.map_map, List.forall₂_map_right_iff, List.forall₂_same]
    exact fun (v, n) _ => ⟨rfl, BlockItem.text_varying n .output _ _⟩
  case fragment =>
    refine ⟨_, _, filter_fragmentBlock _, ?_, ?_⟩
    · refine List.forall₂_map_right_iff.2 ((mapM_eq_ok.1 h.fragmentVaryings).imp fun v l hl => ?_)
      obtain ⟨source, hsource, hname, htype, rfl⟩ := matchVarying_eq_ok hl
      rw [hvertex] at hsource
      obtain ⟨⟨w, n⟩, hw, rfl⟩ := List.mem_map.1 hsource
      exact ⟨n, w, List.mk_mem_zipIdx_iff_getElem?.1 hw, hname, htype, rfl,
        BlockItem.text_varying n .input _ _⟩
    · rw [h.outputs, List.map_map, List.forall₂_map_right_iff, List.forall₂_same]
      exact fun (o, n) _ => ⟨rfl, BlockItem.text_output n _⟩

/-- The stages of a program with explicit bindings are linked by location, and its texts have the lines
of their declarations.  The outputs of the vertex stage count as varyings behind its own. -/
theorem Program.exists_linkedBy {d : Definition} {o : Surroundings} {p : Program}
    (h : build .explicitBinding d o = .ok p) :
    ∃ s outs, LinkedStages.ofDefinition d o = .ok s ∧ p = s.program d.name .explicitBinding ∧
      List.Forall₂ (fun out v => Varying.parse out.line.toList = .ok v) s.vertex.outputs outs ∧
      s.LinkedBy (s.vertex.varyings ++ outs) ∧
      s.vertex.Holds (s.interface.vertexBlock .explicitBinding) p.vertex ∧
      s.fragment.Holds (s.interface.fragmentBlock .explicitBinding) p.fragment := by
  obtain ⟨s, hs, rfl⟩ := exists_of_build_eq_ok h
  obtain ⟨outs, hlinks⟩ := LinkedStages.exists_links hs
  exact ⟨s, outs, hs, rfl, mapM_eq_ok.1 hlinks.vertexOutputs, hlinks.linkedBy,
    s.holds_vertex d.name .explicitBinding, s.holds_fragment d.name .explicitBinding⟩

/-- The fragment stage leaves one varying out and reads the others in another order. -/
theorem Program.exists_linkedBy_layered :
    let d : Definition := ⟨"layered",
      "varying vec4 color;\nvarying vec2 uv;\nout flat int layer;\nvoid main() {}\n",
      "varying flat int layer;\nvarying vec4 color;\nout vec4 first;\nout vec4 second;\n", .empty⟩
    ∃ p s outs, build .explicitBinding d ⟨[], .empty⟩ = .ok p ∧
      LinkedStages.ofDefinition d ⟨[], .empty⟩ = .ok s ∧
      ((s.interface.fragmentBlock .explicitBinding).filter (·.isStageVariable)).map (·.text) =
        ["layout(location = 2) in flat int layer;\n", "layout(location = 0) in vec4 color;\n",
          "layout(location = 0) out vec4 first;\n", "layout(location = 1) out vec4 second;\n"] ∧
      s.LinkedBy (s.vertex.varyings ++ outs) ∧
      s.fragment.Holds (s.interface.fragmentBlock .explicitBinding) p.fragment := by
  intro d
  obtain ⟨s, hs, hlines⟩ := map_eq_ok.1 (show (fun s => ((s.interface.fragmentBlock
      .explicitBinding).filter (·.isStageVariable)).map (·.text)) <$>
        LinkedStages.ofDefinition d ⟨[], .empty⟩ =
      .ok ["layout(location = 2) in flat int layer;\n", "layout(location = 0) in vec4 color;\n",
        "layout(location = 0) out vec4 first;\n", "layout(location = 1) out vec4 second;\n"] by
    decide +kernel)
  obtain ⟨s', outs, hs', -, -, hlinked, -, hholds⟩ := exists_linkedBy (build_eq_ok hs)
  obtain rfl : s = s' := Except.ok.inj (hs.symm.trans hs')
  exact ⟨_, s, outs, build_eq_ok hs, hs, hlines, hlinked, hholds⟩

end ForwardShading
