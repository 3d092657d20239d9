import ForwardShading.Proofs.Binding.Faults
import ForwardShading.Proofs.Program.Declared
import ForwardShading.Proofs.Program.Identifiers
import ForwardShading.Proofs.Program.Linkage
import ForwardShading.Proofs.Text.Words

/-!
# When a program is built

A program is built if both of its texts can be read and its stages can be linked
(`Interface.Linkable`).  Otherwise the error is the first violation in the order of the checks, told
under the program's name (`Program.build_iff`).  Every check walks declarations in their order, and
what it finds is said by the declarations alone: by the entry at fault and those in front of it.
-/

namespace ForwardShading

open Glsl (Attribute Varying Output Uniform NumericType Stage Piece)
open Text (words unwords collapse)

/-! ## Texts -/

namespace Glsl

/-- Holds of what is wrong with a piece of a stage text. -/
def Piece.Fault : Piece → DeclarationError → Prop
  | .kept _, _ => False
  | .statement s, e => s.declaration = .error e
  | .unterminated cs, e => e = .malformed (String.ofList (Text.trim cs))

theorem Piece.reports_declarations (ps : List Piece) :
    Reports (fun _ => Piece.Fault) ps (declarations ps) := by
  induction ps with
  | nil => exact reports_nil []
  | cons p ps ih =>
    cases p with
    | kept cs => exact Reports.cons (fun _ => id) ih
    | unterminated cs => exact reports_of_fault fun e => Iff.rfl
    | statement s =>
      rw [declarations]
      cases hd : s.declaration with
      | error e =>
        refine reports_of_fault fun e' => ?_
        rw [Piece.Fault, hd, Except.error.injEq, eq_comm]
      | ok d =>
        refine Reports.cons (fun e he => ?_) (ih.map (d :: ·))
        rw [Piece.Fault, hd] at he
        cases he

/-- Holds of what is wrong with the first piece of a stage text at which something is. -/
def TextFault (source : String) : DeclarationError → Prop :=
  FirstFault (fun _ => Piece.Fault) (scan .start source.toList)

theorem Stage.ofSource_eq_error {source : String} {e : DeclarationError} :
    ofSource source = .error e ↔ TextFault source e :=
  (Piece.reports_declarations (scan .start source.toList)).map _ e

/-! ## Outputs read as varyings -/

/-- The varying that an output of the vertex stage is.  Its name is the last word. -/
def Varying.ofOutput (o : Output) : Varying where
  line := o.line
  qualifiedType := String.ofList (unwords (words o.line.toList).dropLast)
  name := String.ofList ((words o.line.toList).getLastD [])

/-- What a vertex stage hands on: its varyings, and behind them its outputs. -/
def Stage.written (s : Stage) : List Varying :=
  s.varyings ++ s.outputs.map Varying.ofOutput

/-- An output that could be read has a type and a name. -/
theorem varyingOfOutput_of_parse {text : List Char} {o : Output} (h : Output.parse text = .ok o) :
    Interface.varyingOfOutput o = .ok (Varying.ofOutput o) := by
  obtain ⟨hline, hlength⟩ := Output.line_of_parse h
  have hwords : words o.line.toList = words text := by rw [hline, Text.words_collapse]
  obtain ⟨name, q, qualifiers, hreverse⟩ : ∃ name q qualifiers,
      (words text).reverse = name :: q :: qualifiers := by
    rw [← List.length_reverse] at hlength
    exact match (words text).reverse, hlength with
      | name :: q :: qualifiers, _ => ⟨name, q, qualifiers, rfl⟩
  have hparts : words text = (q :: qualifiers).reverse ++ [name] := by
    rw [← List.reverse_cons, ← hreverse, List.reverse_reverse]
  have hsame : normalForm o.line.toList = o.line := by
    rw [normalForm, hline, Text.collapse_collapse, ← hline, String.ofList_toList]
  rw [Interface.varyingOfOutput, Varying.parse, hwords, hreverse, hsame, Varying.ofOutput, hwords,
    hparts, List.dropLast_concat, List.getLastD_concat]

theorem Stage.mapM_varyingOfOutput {source : String} {s : Stage} (h : ofSource source = .ok s) :
    s.outputs.mapM Interface.varyingOfOutput = .ok (s.outputs.map Varying.ofOutput) := by
  refine mapM_eq_ok.2 (List.forall₂_map_right_iff.2 (List.forall₂_same.2 fun o ho => ?_))
  obtain ⟨text, -, hparse⟩ := exists_of_mem_mapM (Dissection.accounts_ofSource h).outputs ho
  exact varyingOfOutput_of_parse hparse

end Glsl

/-! ## Attributes -/

/-- The location that a definition gives to an attribute. -/
def Definition.location? (d : Definition) (a : Attribute) : Option Nat :=
  (d.attributes.get? a.name).bind (·.location?)

/-- Holds where an attribute has no location, or has that of one in front of it. -/
inductive Glsl.Attribute.Fault (d : Definition) (before : List Attribute) (a : Attribute) :
    DeclarationError → Prop
  | unmapped (h : d.location? a = none) : Fault d before a (.unmappedAttribute a.name a.line)
  | taken {first : Attribute} {location : Nat} (hfirst : first ∈ before)
      (hlocation : d.location? first = some location) (h : d.location? a = some location) :
      Fault d before a (.duplicateAttributeLocation location first.name a.name)

namespace Glsl.Attribute

variable {d : Definition} {before : List Attribute} {a : Attribute} {e : DeclarationError}

theorem fault_iff_of_none (h : d.location? a = none) :
    Fault d before a e ↔ e = .unmappedAttribute a.name a.line := by
  constructor
  · rintro (_ | ⟨-, -, ha⟩)
    · rfl
    · rw [h] at ha
      cases ha
  · rintro rfl
    exact .unmapped h

theorem fault_iff_of_some {location : Nat} (h : d.location? a = some location) :
    Fault d before a e ↔ ∃ first ∈ before, d.location? first = some location ∧
      e = .duplicateAttributeLocation location first.name a.name := by
  constructor
  · rintro (hnone | ⟨hfirst, hlocation, ha⟩)
    · rw [h] at hnone
      cases hnone
    · rw [h] at ha
      cases ha
      exact ⟨_, hfirst, hlocation, rfl⟩
  · rintro ⟨first, hfirst, hlocation, rfl⟩
    exact .taken hfirst hlocation h

/-- Attributes are without fault if they have locations, each its own. -/
theorem faultless_iff {as : List Attribute} :
    Faultless (Fault d) as ↔
      (∀ a ∈ as, ∃ location, d.location? a = some location) ∧ (as.map d.location?).Nodup := by
  rw [List.Nodup, List.pairwise_map]
  refine faultless_iff_pairwise fun before a => ?_
  cases ha : d.location? a with
  | none => simp [fault_iff_of_none ha]
  | some location =>
    rw [and_iff_right ⟨location, rfl⟩]
    simp only [fault_iff_of_some ha]
    constructor
    · exact fun h first hfirst hlocation => h _ ⟨first, hfirst, hlocation, rfl⟩
    · rintro h e ⟨first, hfirst, hlocation, -⟩
      exact h first hfirst hlocation

end Glsl.Attribute

namespace Interface

variable {d : Definition} {o : Surroundings}

theorem locate_eq_error {a : Attribute} {e : DeclarationError} (h : locate d o a = .error e) :
    d.location? a = none ∧ e = .unmappedAttribute a.name a.line := by
  unfold locate at h
  unfold Definition.location?
  cases hsemantic : d.attributes.get? a.name with
  | none =>
    rw [hsemantic] at h
    cases h
    exact ⟨rfl, rfl⟩
  | some semantic =>
    simp only [hsemantic] at h
    cases hlocation : semantic.location? with
    | none =>
      rw [hlocation] at h
      cases h
      exact ⟨hlocation, rfl⟩
    | some location =>
      rw [hlocation] at h
      cases h

theorem reports_locateAttributes (located : List LocatedAttribute) {as : List Attribute}
    (hlocated : ∀ l ∈ located, d.location? l.decl = some l.location)
    (hnodup : (located.map (·.location)).Nodup) :
    Reports (fun before => Attribute.Fault d (located.map (·.decl) ++ before)) as
      (locateAttributes d o located as) := by
  induction as generalizing located with
  | nil => exact reports_nil located
  | cons a as ih =>
    rw [locateAttributes]
    cases hlocate : locate d o a with
    | error e =>
      obtain ⟨hnone, rfl⟩ := locate_eq_error hlocate
      exact reports_of_fault fun e' => Attribute.fault_iff_of_none hnone
    | ok l =>
      obtain ⟨rfl, hlocation⟩ := locate_eq_ok hlocate
      change d.location? l.decl = some l.location at hlocation
      have hfault : ∀ e, Attribute.Fault d (located.map (·.decl) ++ []) l.decl e ↔ ∃ first ∈ located,
          first.location = l.location ∧
            e = .duplicateAttributeLocation l.location first.decl.name l.decl.name := by
        intro e
        rw [List.append_nil, Attribute.fault_iff_of_some hlocation]
        simp only [List.mem_map, exists_exists_and_eq_and]
        refine exists_congr fun first => and_congr_right fun hfirst => ?_
        rw [hlocated first hfirst, Option.some.injEq]
      refine reports_of_find? hnodup hfault
        (fun first hfind => by simp only [bind, Except.bind, hfind]) fun hfind => ?_
      have hrest := ih (located ++ [l])
        (by simpa [or_imp, forall_and] using ⟨hlocated, hlocation⟩)
        (nodup_map_concat hnodup (find?_key_eq_none.1 hfind))
      simp only [bind, Except.bind, hfind]
      simpa only [List.map_append, List.map_singleton, List.append_assoc, List.singleton_append]
        using hrest

end Interface

/-! ## Varyings -/

namespace Glsl.Varying

/-- Holds where a varying has the name of one in front of it. -/
def NameFault (before : List Varying) (v : Varying) (e : DeclarationError) : Prop :=
  ∃ first ∈ before, first.name = v.name ∧ e = .duplicateVarying v.name first.line v.line

/-- Holds where a varying of the fragment stage is none of the given ones, or is of another type. -/
inductive SourceFault (sources : List Varying) (v : Varying) : DeclarationError → Prop
  | missing (h : ∀ s ∈ sources, s.name ≠ v.name) :
      SourceFault sources v (.danglingVarying v.name v.line)
  | differs {s : Varying} (hs : s ∈ sources) (hname : s.name = v.name)
      (htype : s.dataType ≠ v.dataType) :
      SourceFault sources v (.varyingMismatch v.name s.line v.line)

/-- With different names, one source decides. -/
theorem sourceFault_iff {sources : List Varying} {s v : Varying} {e : DeclarationError}
    (hn : (sources.map (·.name)).Nodup) (hs : s ∈ sources) (hname : s.name = v.name) :
    SourceFault sources v e ↔
      s.dataType ≠ v.dataType ∧ e = .varyingMismatch v.name s.line v.line := by
  constructor
  · rintro (hmissing | ⟨hs', hname', htype⟩)
    · exact absurd hname (hmissing s hs)
    · rw [List.inj_on_of_nodup_map hn hs' hs (hname'.trans hname.symm)] at htype ⊢
      exact ⟨htype, rfl⟩
  · rintro ⟨htype, rfl⟩
    exact .differs hs hname htype

theorem faultless_names {vs : List Varying} :
    Faultless NameFault vs ↔ (vs.map (·.name)).Nodup := by
  rw [List.Nodup, List.pairwise_map, faultless_iff_pairwise (P := fun _ => True)
    (R := fun first v : Varying => first.name ≠ v.name)]
  · simp
  · intro before v
    rw [true_and]
    constructor
    · exact fun h first hfirst hname => h _ ⟨first, hfirst, hname, rfl⟩
    · rintro h e ⟨first, hfirst, hname, -⟩
      exact h first hfirst hname

theorem faultless_sources {sources vs : List Varying} (hn : (sources.map (·.name)).Nodup) :
    Faultless (fun _ => SourceFault sources) vs ↔
      ∀ v ∈ vs, ∃ s ∈ sources, s.name = v.name ∧ s.dataType = v.dataType := by
  rw [faultless_iff_forall]
  refine forall₂_congr fun v _ => ⟨fun h => ?_, ?_⟩
  · by_contra hnone
    refine h _ (.missing fun s hs hname => hnone ⟨s, hs, hname, ?_⟩)
    by_contra htype
    exact h _ (.differs hs hname htype)
  · rintro ⟨s, hs, hname, htype⟩ e he
    exact ((sourceFault_iff hn hs hname).1 he).1 htype

end Glsl.Varying

namespace Interface

theorem reports_locateVaryings (located : List LocatedVarying) {vs : List Varying}
    (hnodup : (located.map (·.decl.name)).Nodup) :
    Reports (fun before => Varying.NameFault (located.map (·.decl) ++ before)) vs
      (locateVaryings located vs) := by
  induction vs generalizing located with
  | nil => exact reports_nil located
  | cons v vs ih =>
    rw [locateVaryings]
    refine reports_of_find? hnodup (fun e => ?_) (fun first hfind => by rw [hfind]) fun hfind => ?_
    · simp [Varying.NameFault]
    · have hrest := ih (located ++ [⟨located.length, v⟩])
        (nodup_map_concat hnodup (find?_key_eq_none.1 hfind))
      rw [hfind]
      simpa only [List.map_append, List.map_singleton, List.append_assoc, List.singleton_append]
        using hrest

theorem matchVarying_eq_error {sources : List LocatedVarying} {v : Varying} {e : DeclarationError}
    (hnodup : (sources.map (·.decl.name)).Nodup) :
    matchVarying sources v = .error e ↔ Varying.SourceFault (sources.map (·.decl)) v e := by
  unfold matchVarying
  cases hfind : sources.find? (·.decl.name == v.name) with
  | none =>
    have hmissing : ∀ s ∈ sources.map (·.decl), s.name ≠ v.name :=
      List.forall_mem_map.2 (find?_key_eq_none.1 hfind)
    rw [Except.error.injEq]
    constructor
    · rintro rfl
      exact .missing hmissing
    · rintro (_ | ⟨hs, hname, -⟩)
      · rfl
      · exact absurd hname (hmissing _ hs)
  | some s =>
    obtain ⟨hs, hname⟩ := (find?_key_eq_some hnodup).1 hfind
    have hnames : ((sources.map (·.decl)).map (·.name)).Nodup := by rwa [List.map_map]
    rw [Varying.sourceFault_iff hnames (List.mem_map_of_mem hs) hname]
    by_cases htype : s.decl.dataType = v.dataType
    · simp only [htype, if_true]
      exact iff_of_false nofun fun h => h.1 rfl
    · simp only [htype, if_false, Except.error.injEq]
      rw [eq_comm, and_iff_right htype]

end Interface

/-! ## All checks -/

namespace Interface

/-- The checks on two stages that could be read, in the order in which they are made. -/
def checks (d : Definition) (o : Surroundings) (vertex fragment : Stage) :
    List (DeclarationError → Prop) :=
  let uniforms := vertex.uniforms ++ fragment.uniforms
  let own := ObjectLayout.ownNumerics o.tiers (Uniform.firsts uniforms)
  [FirstFault (Attribute.Fault d) vertex.attributes,
    FirstFault Varying.NameFault vertex.written,
    FirstFault (fun _ => Varying.SourceFault vertex.written) fragment.varyings,
    FirstFault Uniform.LineFault uniforms,
    FirstFault (fun _ => Uniform.TypeFault) own,
    FirstFault Uniform.SizeFault own]

/-- Holds of two stages that can be linked. -/
structure Linkable (d : Definition) (o : Surroundings) (vertex fragment : Stage) : Prop where
  located : ∀ a ∈ vertex.attributes, ∃ location, d.location? a = some location
  locations : (vertex.attributes.map d.location?).Nodup
  names : (vertex.written.map (·.name)).Nodup
  sources : ∀ v ∈ fragment.varyings, ∃ s ∈ vertex.written, s.name = v.name ∧ s.dataType = v.dataType
  lines : ∀ u ∈ vertex.uniforms ++ fragment.uniforms, ∀ w ∈ vertex.uniforms ++ fragment.uniforms,
    u.name = w.name → u.line = w.line
  types : ∀ u ∈ vertex.uniforms ++ fragment.uniforms, u.sampler = none →
    (∀ s ∈ o.tiers, u.name ∉ s.fieldNames) → ∃ type : NumericType, type.name = u.typeName
  size : Std140.bufferSize (Uniform.fields (ObjectLayout.ownNumerics o.tiers
    (Uniform.firsts (vertex.uniforms ++ fragment.uniforms)))) ≤ ObjectLayout.maxBufferSize.toNat

theorem reportsFirstOf_link {source : String} {vertex : Stage}
    (hvertex : Stage.ofSource source = .ok vertex) (d : Definition) (o : Surroundings)
    (fragment : Stage) :
    ReportsFirstOf (checks d o vertex fragment) (link d o vertex fragment) := by
  refine ReportsFirstOf.bind (reports_locateAttributes [] nofun List.nodup_nil)
    fun attributes _ => ?_
  -- Outputs that could be read are varyings, so reading them again is no check.
  rw [Stage.mapM_varyingOfOutput hvertex]
  show ReportsFirstOf _ (locateVaryings [] vertex.written >>= _)
  refine ReportsFirstOf.bind (reports_locateVaryings [] List.nodup_nil)
    fun sources hsources => ?_
  obtain ⟨hdecls, hnodup⟩ := locateVaryings_eq_ok hsources List.nodup_nil
  have hwritten : sources.map (·.decl) = vertex.written := by
    rw [hdecls, List.nil_append, List.map_map]
    exact List.zipIdx_map_fst 0 vertex.written
  refine ReportsFirstOf.bind (reports_mapM fun v _ e => ?_) fun fragmentVaryings _ => ?_
  · rw [← hwritten]
    exact matchVarying_eq_error hnodup
  refine ReportsFirstOf.bind (Uniform.reports_merge _ _) fun uniforms huniforms => ?_
  have hallocate := ObjectLayout.reports_allocate o.tiers (Uniform.nodup_merge huniforms)
  rw [Uniform.eq_firsts_of_merge huniforms] at hallocate ⊢
  rw [bind_pure_comp]
  exact Reports.map hallocate _

/-- Uniforms with one name that were read off one line are of one type. -/
theorem faultless_types {tiers : ResourceTiers} {us : List Uniform}
    (hparsed : ∀ u ∈ us, ∃ text, Uniform.parse text = .ok u) (hlines : Faultless Uniform.LineFault us) :
    Faultless (fun _ => Uniform.TypeFault) (ObjectLayout.ownNumerics tiers (Uniform.firsts us)) ↔
      ∀ u ∈ us, u.sampler = none → (∀ s ∈ tiers, u.name ∉ s.fieldNames) →
        ∃ type : NumericType, type.name = u.typeName := by
  have hmerges := Uniform.merges_firsts hlines
  rw [Uniform.faultless_types]
  constructor
  · intro h u hu hnumeric hown
    obtain ⟨w, hw, -, hline⟩ := hmerges.kept u hu
    obtain ⟨text, htext⟩ := hparsed u hu
    obtain ⟨text', htext'⟩ := hparsed w (hmerges.only w hw)
    obtain rfl := Uniform.eq_of_line htext htext' hline.symm
    exact h u (List.mem_filter.2 ⟨hw, decide_eq_true ⟨hnumeric, hown⟩⟩)
  · intro h u hu
    obtain ⟨hu, hdecided⟩ := List.mem_filter.1 hu
    obtain ⟨hnumeric, hown⟩ := of_decide_eq_true hdecided
    exact h u (hmerges.only u hu) hnumeric hown

theorem linkable_iff {d : Definition} {o : Surroundings} {vertex fragment : Stage}
    (hvertex : Stage.ofSource d.vertex = .ok vertex)
    (hfragment : Stage.ofSource d.fragment = .ok fragment) :
    (∀ check ∈ checks d o vertex fragment, ∀ e, ¬ check e) ↔ Linkable d o vertex fragment := by
  have hparsed : ∀ u ∈ vertex.uniforms ++ fragment.uniforms, ∃ text, Uniform.parse text = .ok u := by
    intro u hu
    rcases List.mem_append.1 hu with hu | hu
    · exact Stage.exists_parse_of_mem_uniforms hvertex hu
    · exact Stage.exists_parse_of_mem_uniforms hfragment hu
  simp only [checks, List.forall_mem_cons, ← faultless_iff, List.not_mem_nil, Attribute.faultless_iff,
    Varying.faultless_names, Uniform.faultless_sizes]
  constructor
  · rintro ⟨⟨hlocated, hlocations⟩, hnames, hsources, hlines, htypes, hsize, -⟩
    exact ⟨hlocated, hlocations, hnames, (Varying.faultless_sources hnames).1 hsources,
      Uniform.faultless_lines.1 hlines, (faultless_types hparsed hlines).1 htypes, hsize⟩
  · rintro ⟨hlocated, hlocations, hnames, hsources, hlines, htypes, hsize⟩
    have hlines := Uniform.faultless_lines.2 hlines
    exact ⟨⟨hlocated, hlocations⟩, hnames, (Varying.faultless_sources hnames).2 hsources, hlines,
      (faultless_types hparsed hlines).2 htypes, hsize, nofun⟩

end Interface

namespace LinkedStages

/-- Holds of the first violation in a program: in the text of the vertex stage, else in that of the
fragment stage, else in what the stages declare. -/
inductive FirstViolation (d : Definition) (o : Surroundings) : DeclarationError → Prop
  | vertexText {e : DeclarationError} (h : Glsl.TextFault d.vertex e) : FirstViolation d o e
  | fragmentText {vertex : Stage} {e : DeclarationError} (hvertex : Stage.ofSource d.vertex = .ok vertex)
      (h : Glsl.TextFault d.fragment e) : FirstViolation d o e
  | declarations {vertex fragment : Stage} {e : DeclarationError}
      (hvertex : Stage.ofSource d.vertex = .ok vertex)
      (hfragment : Stage.ofSource d.fragment = .ok fragment)
      (h : FirstOf (Interface.checks d o vertex fragment) e) : FirstViolation d o e

variable {d : Definition} {o : Surroundings}

theorem ofDefinition_eq_error {e : DeclarationError} :
    ofDefinition d o = .error e ↔ FirstViolation d o e := by
  simp only [ofDefinition, bind_eq_error, Stage.ofSource_eq_error]
  constructor
  · rintro (h | ⟨vertex, hvertex, h | ⟨fragment, hfragment, h | ⟨interface, -, h⟩⟩⟩)
    · exact .vertexText h
    · exact .fragmentText hvertex h
    · exact .declarations hvertex hfragment
        ((Interface.reportsFirstOf_link hvertex d o fragment e).1 h)
    · cases h
  · rintro (h | ⟨hvertex, h⟩ | ⟨hvertex, hfragment, h⟩)
    · exact .inl h
    · exact .inr ⟨_, hvertex, .inl h⟩
    · exact .inr ⟨_, hvertex, .inr ⟨_, hfragment,
        .inl ((Interface.reportsFirstOf_link hvertex d o _ e).2 h)⟩⟩

theorem exists_ofDefinition_iff :
    (∃ s, ofDefinition d o = .ok s) ↔
      ∃ vertex fragment, Stage.ofSource d.vertex = .ok vertex ∧
        Stage.ofSource d.fragment = .ok fragment ∧ Interface.Linkable d o vertex fragment := by
  simp only [ofDefinition, bind_eq_ok]
  constructor
  · rintro ⟨s, vertex, hvertex, fragment, hfragment, interface, hlink, -⟩
    refine ⟨vertex, fragment, hvertex, hfragment, (Interface.linkable_iff hvertex hfragment).1 ?_⟩
    exact (Interface.reportsFirstOf_link hvertex d o fragment).exists_ok.1 ⟨interface, hlink⟩
  · rintro ⟨vertex, fragment, hvertex, hfragment, hlinkable⟩
    obtain ⟨interface, hlink⟩ := (Interface.reportsFirstOf_link hvertex d o fragment).exists_ok.2
      ((Interface.linkable_iff hvertex hfragment).2 hlinkable)
    exact ⟨_, vertex, hvertex, fragment, hfragment, interface, hlink, rfl⟩

end LinkedStages

namespace Program

theorem build_eq_error {dialect : Dialect} {d : Definition} {o : Surroundings} {e : ShaderError} :
    build dialect d o = .error e ↔
      e.shader = d.name ∧ LinkedStages.ofDefinition d o = .error e.cause := by
  obtain ⟨shader, cause⟩ := e
  unfold build
  cases LinkedStages.ofDefinition d o with
  | ok s => exact iff_of_false nofun fun h => nomatch h.2
  | error cause' => simp [eq_comm]

/-- A program is built if both stage texts can be read and the stages can be linked.  Otherwise the
error has the program's name and is the first violation. -/
theorem build_iff (dialect : Dialect) (d : Definition) (o : Surroundings) :
    ((∃ p, build dialect d o = .ok p) ↔
      ∃ vertex fragment, Stage.ofSource d.vertex = .ok vertex ∧
        Stage.ofSource d.fragment = .ok fragment ∧ Interface.Linkable d o vertex fragment) ∧
    ∀ e, build dialect d o = .error e ↔
      e.shader = d.name ∧ LinkedStages.FirstViolation d o e.cause := by
  refine ⟨?_, fun e => ?_⟩
  · rw [← LinkedStages.exists_ofDefinition_iff]
    constructor
    · rintro ⟨p, hp⟩
      obtain ⟨s, hs, -⟩ := exists_of_build_eq_ok hp
      exact ⟨s, hs⟩
    · rintro ⟨s, hs⟩
      exact ⟨_, build_eq_ok hs⟩
  · rw [build_eq_error, LinkedStages.ofDefinition_eq_error]

-- The types of both uniforms are unknown, but varyings are checked before uniforms.
example :
    build .fixedBinding
      ⟨"tinted", "uniform tint a;\n", "uniform tint b;\nvarying vec2 uv;\n", .empty⟩ ⟨[], .empty⟩ =
        .error ⟨"tinted", .danglingVarying "uv" "vec2 uv"⟩ := by
  decide +kernel

end Program

end ForwardShading
