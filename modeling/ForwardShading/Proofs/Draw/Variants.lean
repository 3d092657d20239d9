import ForwardShading.Draw.Environment
import ForwardShading.Proofs.Glsl.Define
import ForwardShading.Proofs.Program.Interface

/-!
# Variants of a material

The programs of a material differ in the defines that are inserted into its texts.  None of these
lines shows in what the texts declare, so all variants ask the same of their draws
(`Environment.build_describe`): vertex data and object resources that suit one of them suit all.
-/

namespace ForwardShading

open Glsl (Define isWordChar)

theorem ShaderPass.isPlain_define (pass : ShaderPass) : pass.define.IsPlain := by
  cases pass with
  | forward | depth | shadow => decide
  | custom id =>
    intro c hc
    simp only [define, String.toList_append, String.toList_empty, List.append_nil,
      List.mem_append] at hc
    rcases hc with hc | hc
    · exact List.all_eq_true.1 (by decide : "CUSTOM_PASS_".toList.all isWordChar = true) c hc
    · exact Define.isWordChar_of_mem_toString hc

namespace Environment

variable (e : Environment) (lights : SortedLights) (pass : ShaderPass) (flags : UInt64)

theorem defines_ne_nil : e.defines lights pass flags ≠ [] :=
  List.cons_ne_nil _ _

/-- The defines of an environment leave no trace in what a text declares. -/
theorem isPlain_of_mem_defines {d : Define} (h : d ∈ e.defines lights pass flags) : d.IsPlain := by
  have hcount : ∀ (name : String) (n : Nat), name.toList.all isWordChar = true →
      (⟨name, toString n⟩ : Define).IsPlain := by
    intro name n hname c hc
    rcases List.mem_append.1 hc with hc | hc
    · exact List.all_eq_true.1 hname c hc
    · exact Define.isWordChar_of_mem_toString hc
  have hclustered : (⟨"CLUSTERED_LIGHTS", ""⟩ : Define).IsPlain := by decide
  simp only [defines, List.mem_append, List.mem_cons, List.not_mem_nil, or_false] at h
  rcases h with ((rfl | rfl) | h) | h
  · exact pass.isPlain_define
  · exact hcount _ _ (by decide)
  · split_ifs at h
    · rw [List.mem_singleton.1 h]
      exact hclustered
    · rcases List.mem_pair.1 h with rfl | rfl
      · exact hcount _ _ (by decide)
      · exact hcount _ _ (by decide)
  · split_ifs at h
    · exact absurd h List.not_mem_nil
    · rw [List.mem_singleton.1 h]
      exact hcount _ _ (by decide)

end Environment

namespace Material

variable {m : Material}

theorem newline_notMem_line (h : ∀ name ∈ m.defines.keys, '\n' ∉ name.toList) :
    ∀ d ∈ m.defineLines, '\n' ∉ d.line := by
  intro d hd
  obtain ⟨⟨name, value⟩, hentry, hd⟩ := List.mem_filterMap.1 hd
  refine Define.notMem_line (by decide) ?_ (Define.newline_notMem_value hd)
  rw [Define.name_of_ofValue? hd]
  exact h name (List.mem_map_of_mem hentry)

/-- Variants of a material that differ in plain defines declare the same. -/
theorem declaresSame_variantDefinition (h : ∀ name ∈ m.defines.keys, '\n' ∉ name.toList)
    {extra extra' : List Define} (hne : extra ≠ []) (hne' : extra' ≠ [])
    (hextra : ∀ d ∈ extra, d.IsPlain) (hextra' : ∀ d ∈ extra', d.IsPlain) :
    (m.variantDefinition extra).DeclaresSame (m.variantDefinition extra') := by
  have hstage : ∀ source : String,
      (·.declarations) <$> Glsl.Stage.ofSource (Define.insertAll (m.defineLines ++ extra) source) =
        (·.declarations) <$>
          Glsl.Stage.ofSource (Define.insertAll (m.defineLines ++ extra') source) := by
    intro source
    obtain ⟨result, hresult⟩ :=
      Define.exists_declarations_insertAll (newline_notMem_line h) source
    rw [Glsl.Stage.declarations_ofSource, Glsl.Stage.declarations_ofSource,
      hresult extra hne hextra, hresult extra' hne' hextra']
  exact ⟨rfl, rfl, hstage _, hstage _⟩

end Material

/-- All variants of a material fail alike, or have the same attributes and the same layout. -/
theorem Environment.build_describe {e e' : Environment} {materials : MaterialTable}
    {i i' : Instance} (hview : e.view = e'.view) (helements : e.elements = e'.elements)
    (hmaterial : i.material = i'.material)
    (hnames : ∀ name ∈ (materials i.material).defines.keys, '\n' ∉ name.toList)
    (lights lights' : SortedLights) (pass pass' : ShaderPass) (dialect : Dialect) :
    let v := e.describe materials lights pass i
    let v' := e'.describe materials lights' pass' i'
    (∃ cause, Program.build dialect v.1 v.2 = .error cause ∧
        Program.build dialect v'.1 v'.2 = .error cause) ∨
      ∃ p p', Program.build dialect v.1 v.2 = .ok p ∧ Program.build dialect v'.1 v'.2 = .ok p' ∧
        p.attributes = p'.attributes ∧ p.layout = p'.layout := by
  have hsame := Material.declaresSame_variantDefinition hnames
    (e.defines_ne_nil lights pass i.shaderFlags) (e'.defines_ne_nil lights' pass' i'.shaderFlags)
    (fun _ => e.isPlain_of_mem_defines lights pass i.shaderFlags)
    (fun _ => e'.isPlain_of_mem_defines lights' pass' i'.shaderFlags)
  simp only [describe, ← hmaterial, ← hview, ← helements]
  exact Program.build_congr hsame dialect _

/-- A material whose define closes a comment that the version line has opened: white space in front
makes the scan not take that line for a directive. -/
def Material.openComment : Material where
  definition := ⟨"open", "\x0c#version 450 /*\nuniform float a;\n", "", .empty⟩
  defines := .ofList [("A */", .flag true)]

theorem Environment.build_describe_openComment :
    let e : Environment := { view := .empty .view }
    let e' : Environment := { view := .empty .view, clustered := true }
    let i : Instance := { material := ⟨0⟩, mesh := { vertexBuffer := ⟨1⟩ } }
    let v := e.describe (fun _ => .openComment) ⟨[], [], []⟩ .forward i
    let v' := e'.describe (fun _ => .openComment) ⟨[{ kind := .directional }], [], []⟩ .shadow
      { i with shaderFlags := 5 }
    (Program.build .explicitBinding v.1 v.2).toOption.map (·.layout.uniforms.contains "a") =
        some true ∧
      (∀ name ∈ Material.openComment.defines.keys, '\n' ∉ name.toList) ∧
      ((∃ cause, Program.build .explicitBinding v.1 v.2 = .error cause ∧
          Program.build .explicitBinding v'.1 v'.2 = .error cause) ∨
        ∃ p p', Program.build .explicitBinding v.1 v.2 = .ok p ∧
          Program.build .explicitBinding v'.1 v'.2 = .ok p' ∧
          p.attributes = p'.attributes ∧ p.layout = p'.layout) := by
  intro e e' i v v'
  have hnames : ∀ name ∈ Material.openComment.defines.keys, '\n' ∉ name.toList := by
    decide +kernel
  exact ⟨by decide +kernel, hnames, @Environment.build_describe e e' (fun _ => .openComment) i
    { i with shaderFlags := 5 } rfl rfl rfl hnames ⟨[], [], []⟩ ⟨[{ kind := .directional }], [], []⟩
    .forward .shadow .explicitBinding⟩

end ForwardShading
