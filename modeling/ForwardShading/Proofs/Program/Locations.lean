import ForwardShading.Proofs.Program.Linkage
import Mathlib.Data.PNat.Basic

/-!
# The locations that varyings take

A matrix takes a location for each of its columns, and an array takes those of all its elements
(`Glsl.Varying.locations?`), but the vertex stage writes each varying at its place in the list.  So a
varying runs into the next one exactly if it takes more than one location, and the varyings of a
program have no location in common exactly if all but the last take one
(`Program.exists_clash_iff`).
-/

namespace ForwardShading

open Text

open Glsl (Varying NumericType)

namespace Glsl

theorem NumericType.columns_pos (t : NumericType) : 0 < t.columns := by
  rcases t with c | ⟨c, n⟩ | n
  · exact Nat.one_pos
  · exact Nat.one_pos
  · cases n <;> decide

namespace Varying

/-- The number of elements in brackets, and what is behind them.  The text starts behind the opening
one. -/
def dimension? (cs : List Char) : Option (ℕ+ × List Char) :=
  match breakAt ']' cs with
  | none => none
  | some (size, rest) =>
    let ds := trim size
    if h : ds.all Char.isDigit ∧ ds.head? ≠ some '0' ∧ 0 < digitsValue ds then
      some (⟨digitsValue ds, h.2.2⟩, rest)
    else
      none

/-- The number of columns of the type that stands in front of the last word. -/
def columns? (ws : List (List Char)) : Option ℕ+ :=
  match ws.reverse with
  | _ :: type :: _ =>
    (NumericType.ofName? (String.ofList type)).map fun t => ⟨t.columns, t.columns_pos⟩
  | _ => none

/-- A varying as the block writes it, its type and its name. -/
def written (v : Varying) : List Char :=
  v.qualifiedType.toList ++ ' ' :: v.name.toList

/-- The number of locations that a varying of a numeric type takes: one for each column of the type,
for each of its elements.  Brackets stand behind the type or behind the name. -/
def locations? (v : Varying) : Option ℕ+ :=
  match v.written.splitOn '[' with
  | [] => none
  | plain :: bracketed => do
    let dimensions ← bracketed.mapM dimension?
    let columns ← columns? (words (plain ++ dimensions.flatMap fun d => ' ' :: d.2))
    return columns * (dimensions.map Prod.fst).prod

example : locations? ⟨"flat mat3 bases[4]", "flat mat3", "bases[4]"⟩ = some 12 := by
  decide +kernel

end Varying

end Glsl

/-! ## Varyings that have a location in common -/

namespace LocatedVarying

variable {v w : LocatedVarying} {vs : List LocatedVarying} {n m : ℕ+}

/-- Holds of the locations of a varying: as many as it takes, from its own one on. -/
def Takes (v : LocatedVarying) (location : Nat) : Prop :=
  ∃ n, v.decl.locations? = some n ∧ v.location ≤ location ∧ location < v.location + n

/-- Holds of varyings that have a location in common. -/
def Clash (v w : LocatedVarying) : Prop :=
  ∃ location, v.Takes location ∧ w.Takes location

theorem takes_iff {location : Nat} (hv : v.decl.locations? = some n) :
    v.Takes location ↔ v.location ≤ location ∧ location < v.location + n := by
  simp only [Takes, hv, Option.some.injEq, exists_eq_left']

/-- Of the locations behind its own, a varying first comes to that of the other one. -/
theorem clash_iff (hw : w.decl.locations? = some m) (h : v.location ≤ w.location) :
    v.Clash w ↔ v.Takes w.location := by
  constructor
  · rintro ⟨location, ⟨n, hn, -, hend⟩, m', -, hstart, -⟩
    exact ⟨n, hn, h, Nat.lt_of_le_of_lt hstart hend⟩
  · intro htakes
    exact ⟨w.location, htakes, m, hw, le_rfl, Nat.lt_add_of_pos_right m.pos⟩

/-- A varying clashes with none behind it, one of which is next to it, exactly if it takes one
location. -/
theorem forall_not_clash_iff (hv : v.decl.locations? = some n)
    (hsized : ∀ w ∈ vs, ∃ m, w.decl.locations? = some m) (hbehind : ∀ w ∈ vs, v.location < w.location)
    (hnext : ∃ w ∈ vs, w.location = v.location + 1) : (∀ w ∈ vs, ¬ v.Clash w) ↔ n = 1 := by
  have hclash : ∀ w ∈ vs, v.Clash w ↔ w.location < v.location + n := by
    intro w hw
    obtain ⟨m, hm⟩ := hsized w hw
    have hle := (hbehind w hw).le
    rw [clash_iff hm hle, takes_iff hv, and_iff_right hle]
  rw [← PNat.coe_eq_one_iff]
  constructor
  · intro h
    obtain ⟨w, hw, hlocation⟩ := hnext
    have hend := h w hw
    rw [hclash w hw, hlocation] at hend
    have hpos := n.pos
    omega
  · intro hone w hw
    rw [hclash w hw, hone]
    exact Nat.not_lt.2 (hbehind w hw)

/-- Varyings that are numbered in order clash with none exactly if all but the last take one location. -/
theorem pairwise_not_clash_iff {k : Nat} (hvs : vs.map (·.location) = List.range' k vs.length)
    (hsized : ∀ v ∈ vs, ∃ n, v.decl.locations? = some n) :
    (vs.Pairwise fun v w => ¬ v.Clash w) ↔ ∀ v ∈ vs.dropLast, v.decl.locations? = some 1 := by
  induction vs generalizing k with
  | nil => exact iff_of_true .nil nofun
  | cons v vs ih =>
    rw [List.map_cons, List.length_cons, List.range'_succ, List.cons.injEq] at hvs
    obtain ⟨rfl, hvs⟩ := hvs
    obtain ⟨⟨n, hn⟩, hsized⟩ := List.forall_mem_cons.1 hsized
    cases vs with
    | nil => exact iff_of_true (List.pairwise_singleton _ _) nofun
    | cons w ws =>
      have hbehind : ∀ x ∈ w :: ws, v.location < x.location := by
        intro x hx
        have hmem := List.mem_map_of_mem (f := (·.location)) hx
        rw [hvs, List.mem_range'_1] at hmem
        exact hmem.1
      have hnext : w.location = v.location + 1 := (List.cons.inj hvs).1
      rw [List.pairwise_cons, forall_not_clash_iff hn hsized hbehind ⟨w, List.mem_cons_self, hnext⟩,
        ih hvs hsized, List.dropLast_cons_cons, List.forall_mem_cons, hn, Option.some.injEq]

theorem pairwise_clash_iff {k : Nat} (hvs : vs.map (·.location) = List.range' k vs.length)
    (hsized : ∀ v ∈ vs, ∃ n, v.decl.locations? = some n) :
    vs.Pairwise fun v w => v.Clash w ↔ v.Takes w.location := by
  have hlocations : (vs.map (·.location)).Pairwise (· < ·) := hvs ▸ List.pairwise_lt_range' 1
  refine (List.pairwise_map.1 hlocations).imp_of_mem fun {v w} _ hw hlt => ?_
  obtain ⟨m, hm⟩ := hsized w hw
  exact clash_iff hm hlt.le

end LocatedVarying

/-! ## Built programs -/

/-- Holds of stages the first of which writes the varyings of a list, each at its place, where the
line of its declaration has it. -/
structure LinkedStages.Locates (s : LinkedStages) (sources : List Varying) : Prop where
  decls : s.interface.vertexVaryings.map (·.decl) = sources
  locations : s.interface.vertexVaryings.map (·.location) = List.range sources.length
  written : (s.interface.vertexBlock .explicitBinding).filter (·.isStageVariable) =
    s.interface.vertexVaryings.map fun v =>
      .varying (some v.location) .output v.decl.qualifiedType v.decl.name
  text : ((s.interface.vertexBlock .explicitBinding).filter (·.isStageVariable)).map (·.text) =
    s.interface.vertexVaryings.map fun v =>
      lineAt v.location ("out " ++ v.decl.qualifiedType ++ " " ++ v.decl.name)

theorem Interface.Links.locates {d : Definition} {o : Surroundings} {s : LinkedStages}
    {outs : List Varying} (h : Links d o s.vertex s.fragment outs s.interface) :
    s.Locates (s.vertex.varyings ++ outs) := by
  obtain ⟨hvertex, -⟩ := locateVaryings_eq_ok h.vertexVaryings List.nodup_nil
  rw [List.nil_append, List.length_nil] at hvertex
  constructor
  case decls =>
    rw [hvertex, List.map_map]
    exact List.zipIdx_map_fst 0 _
  case locations =>
    rw [hvertex, List.map_map, List.range_eq_range']
    exact List.zipIdx_map_snd 0 _
  case written => exact filter_vertexBlock _
  case text =>
    rw [filter_vertexBlock, List.map_map]
    exact List.map_congr_left fun v _ => BlockItem.text_varying v.location .output _ _

/-- The varyings of a program with explicit bindings, all of which have a numeric type, clash where one
takes the location of another behind it.  So none clash exactly if all but the last take one location.
The outputs of the vertex stage count as varyings behind its own. -/
theorem Program.exists_clash_iff {d : Definition} {o : Surroundings} {p : Program}
    (h : build .explicitBinding d o = .ok p) :
    ∃ s outs, LinkedStages.ofDefinition d o = .ok s ∧ p = s.program d.name .explicitBinding ∧
      List.Forall₂ (fun out v => Varying.parse out.line.toList = .ok v) s.vertex.outputs outs ∧
      s.Locates (s.vertex.varyings ++ outs) ∧
      ((∀ v ∈ s.interface.vertexVaryings, ∃ n, v.decl.locations? = some n) →
        (s.interface.vertexVaryings.Pairwise fun v w => v.Clash w ↔ v.Takes w.location) ∧
        ((s.interface.vertexVaryings.Pairwise fun v w => ¬ v.Clash w) ↔
          ∀ v ∈ s.interface.vertexVaryings.dropLast, v.decl.locations? = some 1)) := by
  obtain ⟨s, hs, rfl⟩ := exists_of_build_eq_ok h
  obtain ⟨outs, hlinks⟩ := LinkedStages.exists_links hs
  have hlocates := hlinks.locates
  have hrange : s.interface.vertexVaryings.map (·.location) =
      List.range' 0 s.interface.vertexVaryings.length := by
    rw [hlocates.locations, ← hlocates.decls, List.length_map, List.range_eq_range']
  refine ⟨s, outs, hs, rfl, mapM_eq_ok.1 hlinks.vertexOutputs, hlocates, fun hsized => ?_⟩
  exact ⟨LocatedVarying.pairwise_clash_iff hrange hsized,
    LocatedVarying.pairwise_not_clash_iff hrange hsized⟩

/-- A matrix behind all others clashes with none. -/
theorem Program.exists_clash_iff_lastMatrix :
    let d : Definition := ⟨"last", "varying vec2 uv;\nvarying mat3 basis;\nvoid main() {}\n",
      "varying vec2 uv;\nvoid main() {}\n", .empty⟩
    ∃ p s, build .explicitBinding d ⟨[], .empty⟩ = .ok p ∧
      LinkedStages.ofDefinition d ⟨[], .empty⟩ = .ok s ∧
      s.interface.vertexVaryings =
        [⟨0, ⟨"vec2 uv", "vec2", "uv"⟩⟩, ⟨1, ⟨"mat3 basis", "mat3", "basis"⟩⟩] ∧
      s.interface.vertexVaryings.Pairwise fun v w => ¬ v.Clash w := by
  intro d
  obtain ⟨s, hs, hvaryings⟩ := map_eq_ok.1 (show (fun s => s.interface.vertexVaryings) <$>
      LinkedStages.ofDefinition d ⟨[], .empty⟩ =
        .ok [⟨0, ⟨"vec2 uv", "vec2", "uv"⟩⟩, ⟨1, ⟨"mat3 basis", "mat3", "basis"⟩⟩] by
    decide +kernel)
  obtain ⟨s', -, hs', -, -, -, hclash⟩ := exists_clash_iff (build_eq_ok hs)
  obtain rfl : s = s' := Except.ok.inj (hs.symm.trans hs')
  refine ⟨_, s, build_eq_ok hs, hs, hvaryings, (hclash ?_).2.2 ?_⟩
  · rw [hvaryings]
    simp only [List.forall_mem_cons]
    exact ⟨⟨1, by decide +kernel⟩, ⟨3, by decide +kernel⟩, nofun⟩
  · rw [hvaryings]
    simp only [List.dropLast_cons_cons, List.dropLast_singleton, List.forall_mem_cons]
    exact ⟨by decide +kernel, nofun⟩

/-- A matrix in front takes the location of the varying behind it. -/
theorem Program.not_disjoint_firstMatrix :
    let d : Definition := ⟨"first", "varying mat3 basis;\nvarying vec2 uv;\nvoid main() {}\n",
      "varying mat3 basis;\nvarying vec2 uv;\nvoid main() {}\n", .empty⟩
    ∃ p s, build .explicitBinding d ⟨[], .empty⟩ = .ok p ∧
      LinkedStages.ofDefinition d ⟨[], .empty⟩ = .ok s ∧
      (∀ v ∈ s.interface.vertexVaryings, ∃ n, v.decl.locations? = some n) ∧
      ¬ s.interface.vertexVaryings.Pairwise fun v w => ¬ v.Clash w := by
  intro d
  obtain ⟨s, hs, hvaryings⟩ := map_eq_ok.1 (show (fun s => s.interface.vertexVaryings) <$>
      LinkedStages.ofDefinition d ⟨[], .empty⟩ =
        .ok [⟨0, ⟨"mat3 basis", "mat3", "basis"⟩⟩, ⟨1, ⟨"vec2 uv", "vec2", "uv"⟩⟩] by
    decide +kernel)
  have hbasis : Varying.locations? ⟨"mat3 basis", "mat3", "basis"⟩ = some 3 := by decide +kernel
  have huv : Varying.locations? ⟨"vec2 uv", "vec2", "uv"⟩ = some 1 := by decide +kernel
  refine ⟨_, s, build_eq_ok hs, hs, ?_, fun hpairs => ?_⟩
  · rw [hvaryings]
    simp only [List.forall_mem_cons]
    exact ⟨⟨3, hbasis⟩, ⟨1, huv⟩, nofun⟩
  · rw [hvaryings] at hpairs
    refine List.rel_of_pairwise_cons hpairs List.mem_cons_self ?_
    exact (LocatedVarying.clash_iff huv (Nat.zero_le 1)).2 ⟨3, hbasis, by decide, by decide⟩

end ForwardShading
