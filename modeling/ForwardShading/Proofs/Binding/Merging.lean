import ForwardShading.Proofs.Binding.Faults
import ForwardShading.Proofs.Glsl.Declaration

/-!
# Merging what was parsed

Merging looks at the names and the lines of uniforms only.  Uniforms that were parsed are equal where
their lines are, so merging them loses nothing and does not depend on which stage comes first
(`Glsl.Uniform.merge_parsed`): it keeps the first uniform of each name, and every other one is equal
to the first of its name.
-/

namespace ForwardShading.Glsl.Uniform

variable {us vertex fragment : List Uniform} {u w first : Uniform}

/-- Holds of uniforms that were all parsed from some text. -/
def Parsed (us : List Uniform) : Prop :=
  ∀ u ∈ us, ∃ text, parse text = .ok u

/-- Holds of the earliest uniform that differs from the first of its name, and of that first one. -/
def FirstConflict (us : List Uniform) (first u : Uniform) : Prop :=
  ∃ before after, us = before ++ u :: after ∧ us.find? (·.name == u.name) = some first ∧ first ≠ u ∧
    ∀ w ∈ before, us.find? (·.name == w.name) = some w

theorem Parsed.eq_iff_line (h : Parsed us) (hu : u ∈ us) (hw : w ∈ us) : u = w ↔ u.line = w.line := by
  obtain ⟨text, htext⟩ := h u hu
  obtain ⟨text', htext'⟩ := h w hw
  exact ⟨fun heq => heq ▸ rfl, eq_of_line htext htext'⟩

theorem Parsed.comm (h : Parsed (vertex ++ fragment)) : Parsed (fragment ++ vertex) :=
  fun u hu => h u (List.mem_append.2 (List.mem_append.1 hu).symm)

/-! ## The first of each name -/

theorem firsts_sublist : (us : List Uniform) → (firsts us).Sublist us
  | [] => .slnil
  | u :: us => by
    rw [firsts_cons]
    exact ((firsts_sublist _).trans List.filter_sublist).cons_cons u
termination_by us => us.length
decreasing_by exact Nat.lt_succ_of_le (List.length_filter_le _ _)

/-- Behind some uniforms, the first of a name that one of them has is among them. -/
theorem find?_append_of_mem {before rest : List Uniform} (hw : w ∈ before) :
    (before ++ rest).find? (·.name == w.name) = before.find? (·.name == w.name) := by
  have hsome : (before.find? (·.name == w.name)).isSome :=
    List.find?_isSome.2 ⟨w, hw, beq_self_eq_true _⟩
  rw [List.find?_append, Option.or_of_isSome hsome]

/-- A uniform that is not the first of its name has that first one in front. -/
theorem mem_of_find?_of_ne {before after : List Uniform}
    (hfirst : (before ++ u :: after).find? (·.name == u.name) = some first) (hne : first ≠ u) :
    first ∈ before := by
  rw [List.find?_append, List.find?_cons_of_pos (by simp)] at hfirst
  cases hbefore : before.find? (·.name == u.name) with
  | none =>
    rw [hbefore, Option.none_or] at hfirst
    exact absurd (Option.some.inj hfirst).symm hne
  | some found =>
    rw [hbefore, Option.some_or] at hfirst
    cases hfirst
    exact List.mem_of_find?_eq_some hbefore

/-- All uniforms are the first of their names where those with one name are equal. -/
theorem forall_find?_eq_iff :
    (∀ w ∈ us, us.find? (·.name == w.name) = some w) ↔ ∀ u ∈ us, ∀ w ∈ us, u.name = w.name → u = w := by
  constructor
  · intro h u hu w hw hname
    have hfirst := h u hu
    rw [hname, h w hw] at hfirst
    exact (Option.some.inj hfirst).symm
  · intro h w hw
    obtain ⟨first, hfirst⟩ := Option.isSome_iff_exists.1
      (List.find?_isSome.2 ⟨w, hw, beq_self_eq_true w.name⟩ :
        (us.find? (·.name == w.name)).isSome)
    have hname : first.name = w.name := by simpa using List.find?_some hfirst
    rw [hfirst, h first (List.mem_of_find?_eq_some hfirst) w hw hname]

/-! ## Merging -/

theorem exists_merge_iff :
    (∃ us, merge vertex fragment = .ok us) ↔
      ∀ u ∈ vertex ++ fragment, ∀ w ∈ vertex ++ fragment, u.name = w.name → u.line = w.line :=
  (reports_merge vertex fragment).exists_ok.trans faultless_lines

theorem exists_merge_comm :
    (∃ us, merge fragment vertex = .ok us) ↔ ∃ us, merge vertex fragment = .ok us := by
  simp only [exists_merge_iff, List.mem_append, or_comm]

/-- Nothing that was parsed is lost. -/
theorem mem_merge_iff (h : Parsed (vertex ++ fragment)) (hus : merge vertex fragment = .ok us) :
    u ∈ us ↔ u ∈ vertex ++ fragment := by
  have hmerges := merges_of_merge hus
  refine ⟨hmerges.only u, fun hu => ?_⟩
  obtain ⟨m, hm, -, hline⟩ := hmerges.kept u hu
  rwa [← (h.eq_iff_line (hmerges.only m hm) hu).2 hline]

theorem merge_comm_perm {us' : List Uniform} (h : Parsed (vertex ++ fragment))
    (hus : merge vertex fragment = .ok us) (hus' : merge fragment vertex = .ok us') :
    us'.Perm us := by
  refine (List.perm_ext_iff_of_nodup (.of_map _ (nodup_merge hus'))
    (.of_map _ (nodup_merge hus))).2 fun u => ?_
  rw [mem_merge_iff h.comm hus', mem_merge_iff h hus, List.mem_append, List.mem_append, or_comm]

/-- What the walk over the lines finds first is the first conflict. -/
theorem firstFault_lines_iff (h : Parsed us) {e : DeclarationError} :
    FirstFault LineFault us e ↔
      ∃ first u, FirstConflict us first u ∧ e = .uniformMismatch u.name first.line u.line := by
  -- In front of an entry, the walk finds nothing where every uniform is the first of its name.
  have hfaultless : ∀ before rest, us = before ++ rest →
      (Faultless LineFault before ↔ ∀ w ∈ before, us.find? (·.name == w.name) = some w) := by
    rintro before rest rfl
    have hall : (∀ w ∈ before, (before ++ rest).find? (·.name == w.name) = some w) ↔
        ∀ w ∈ before, before.find? (·.name == w.name) = some w :=
      forall₂_congr fun w hw => by rw [find?_append_of_mem hw]
    rw [faultless_lines, hall, forall_find?_eq_iff]
    refine forall₂_congr fun u hu => forall₂_congr fun w hw => imp_congr_right fun _ => ?_
    exact (h.eq_iff_line (List.mem_append_left _ hu) (List.mem_append_left _ hw)).symm
  constructor
  · rintro ⟨before, u, after, rfl, hbefore, w, hw, hname, hline, rfl⟩
    have hfirsts := (hfaultless before (u :: after) rfl).1 hbefore
    refine ⟨w, u, ⟨before, after, rfl, hname ▸ hfirsts w hw, ?_, hfirsts⟩, rfl⟩
    exact fun heq => hline (heq ▸ rfl)
  · rintro ⟨first, u, ⟨before, after, hus, hfirst, hne, hfirsts⟩, rfl⟩
    have hu : u ∈ us := hus ▸ List.mem_append_right _ List.mem_cons_self
    have hname : first.name = u.name := by simpa using List.find?_some hfirst
    have hline : first.line ≠ u.line := fun hline =>
      hne ((h.eq_iff_line (List.mem_of_find?_eq_some hfirst) hu).2 hline)
    rw [hus] at hfirst
    exact ⟨before, u, after, hus, (hfaultless before _ hus).2 hfirsts, first,
      mem_of_find?_of_ne hfirst hne, hname, hline, rfl⟩

/-- Two stages merge where no name has two lines, in either order, to the first uniform of each name,
which all others of that name are equal to.  Where they do not, the error tells the first conflict. -/
theorem merge_parsed (h : Parsed (vertex ++ fragment)) :
    ((∃ us, merge vertex fragment = .ok us) ↔
      ∀ u ∈ vertex ++ fragment, ∀ w ∈ vertex ++ fragment, u.name = w.name → u.line = w.line) ∧
    ((∃ us, merge fragment vertex = .ok us) ↔ ∃ us, merge vertex fragment = .ok us) ∧
    (∀ us, merge vertex fragment = .ok us →
      (us.map (·.name)).Nodup ∧ us = firsts (vertex ++ fragment) ∧ us.Sublist (vertex ++ fragment) ∧
        (∀ u ∈ vertex ++ fragment, u ∈ us) ∧
        ∀ us', merge fragment vertex = .ok us' → us'.Perm us) ∧
    ∀ e, merge vertex fragment = .error e ↔ ∃ first u, FirstConflict (vertex ++ fragment) first u ∧
      e = .uniformMismatch u.name first.line u.line := by
  refine ⟨exists_merge_iff, exists_merge_comm, fun us hus => ?_, fun e => ?_⟩
  · have hfirsts := eq_firsts_of_merge hus
    refine ⟨nodup_merge hus, hfirsts, ?_, fun u => (mem_merge_iff h hus).2, fun us' hus' => ?_⟩
    · rw [hfirsts]
      exact firsts_sublist _
    · exact merge_comm_perm h hus hus'
  · rw [← firstFault_lines_iff h]
    exact reports_merge vertex fragment e

/-- A time that both stages declare is kept once, whichever stage comes first. -/
theorem merge_parsed_time :
    let model : Uniform := ⟨"mat4 matrix_model", none, "mat4", "matrix_model", 0, none⟩
    let time : Uniform := ⟨"float time", none, "float", "time", 0, none⟩
    let tint : Uniform := ⟨"vec3 tint", none, "vec3", "tint", 0, none⟩
    Parsed ([model, time] ++ [time, tint]) ∧
      ∃ us us', merge [model, time] [time, tint] = .ok us ∧ merge [time, tint] [model, time] = .ok us' ∧
        us = [model, time, tint] ∧ us'.Perm us := by
  intro model time tint
  have hmodel : parse "mat4 matrix_model".toList = .ok model := by decide +kernel
  have htime : parse "float  time".toList = .ok time := by decide +kernel
  have htint : parse "vec3 tint".toList = .ok tint := by decide +kernel
  have hparsed : Parsed ([model, time] ++ [time, tint]) := by
    simp only [Parsed, List.cons_append, List.nil_append, List.forall_mem_cons]
    exact ⟨⟨_, hmodel⟩, ⟨_, htime⟩, ⟨_, htime⟩, ⟨_, htint⟩, nofun⟩
  obtain ⟨hok, hcomm, hkept, -⟩ := merge_parsed hparsed
  obtain ⟨us, hus⟩ := hok.2 (by decide +kernel)
  obtain ⟨us', hus'⟩ := hcomm.2 ⟨us, hus⟩
  obtain ⟨-, hfirsts, -, -, hperm⟩ := hkept us hus
  exact ⟨hparsed, us, us', hus, hus', hfirsts.trans (by decide +kernel), hperm us' hus'⟩

end ForwardShading.Glsl.Uniform
