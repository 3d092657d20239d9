import ForwardShading.Proofs.Binding.Resolution
import ForwardShading.Proofs.Std140.Ends

/-!
# What can be wrong with uniforms

Merging finds fault with a uniform that an earlier one declares with another line
(`Glsl.Uniform.reports_mergeInto`) and keeps the first of each name.  Allocation finds fault with an
unknown type first, and then with a field that ends behind the greatest size of a buffer
(`ObjectLayout.reports_allocate`).
-/

namespace ForwardShading

open Glsl (Uniform NumericType)

namespace Glsl.Uniform

/-- Holds where one of the uniforms in front has the same name and another line. -/
def LineFault (before : List Uniform) (u : Uniform) (e : DeclarationError) : Prop :=
  ∃ first ∈ before, first.name = u.name ∧ first.line ≠ u.line ∧
    e = .uniformMismatch u.name first.line u.line

/-- Holds where a numeric uniform is of no numeric type. -/
def TypeFault (u : Uniform) (e : DeclarationError) : Prop :=
  (∀ type : NumericType, type.name ≠ u.typeName) ∧ e = .unknownUniformType u.typeName u.line

/-- The buffer fields of uniforms. -/
def fields (us : List Uniform) : List Std140.Field :=
  us.filterMap (·.field.toOption)

/-- Holds where the field of a uniform, behind those of the uniforms in front, ends past the greatest
size of a buffer. -/
def SizeFault (before : List Uniform) (u : Uniform) (e : DeclarationError) : Prop :=
  ObjectLayout.maxBufferSize.toNat < Std140.endOf 0 (fields (before ++ [u])) ∧
    e = .uniformBufferTooLarge u.name ObjectLayout.maxBufferSize.toNat u.line

/-- The first uniform of each name. -/
def firsts (us : List Uniform) : List Uniform :=
  us.eraseDupsBy fun u first => u.name == first.name

/-! ## Merging -/

/-- Only the first uniform of a name matters for a fault. -/
theorem Merges.lineFault_iff {past merged : List Uniform} {u : Uniform} (h : Merges past merged)
    {e : DeclarationError} :
    LineFault past u e ↔ ∃ first, merged.find? (·.name == u.name) = some first ∧
      first.line ≠ u.line ∧ e = .uniformMismatch u.name first.line u.line := by
  simp only [find?_key_eq_some h.nodup]
  constructor
  · rintro ⟨w, hw, hname, hline, rfl⟩
    obtain ⟨m, hm, hmname, hmline⟩ := h.kept w hw
    rw [← hmline] at hline ⊢
    exact ⟨m, ⟨hm, hmname.trans hname⟩, hline, rfl⟩
  · rintro ⟨first, ⟨hfirst, hname⟩, hline, rfl⟩
    exact ⟨first, h.only first hfirst, hname, hline, rfl⟩

theorem reports_mergeInto {past merged us : List Uniform} (h : Merges past merged) :
    Reports (fun before => LineFault (past ++ before)) us (mergeInto merged us) := by
  induction us generalizing past merged with
  | nil => exact reports_nil merged
  | cons u us ih =>
    have hfault : ∀ e, LineFault (past ++ []) u e ↔ ∃ first,
        merged.find? (·.name == u.name) = some first ∧ first.line ≠ u.line ∧
          e = .uniformMismatch u.name first.line u.line := by
      intro e
      rw [List.append_nil, h.lineFault_iff]
    have hnext : ∀ {merged' : List Uniform}, Merges (past ++ [u]) merged' →
        Reports (fun before => LineFault (past ++ u :: before)) us (mergeInto merged' us) := by
      intro merged' h'
      simpa only [List.append_assoc, List.singleton_append] using ih h'
    rw [mergeInto]
    cases hfind : merged.find? (·.name == u.name) with
    | none =>
      refine Reports.cons (fun e he => ?_) (hnext (h.concat ?_))
      · obtain ⟨first, hfirst, -⟩ := (hfault e).1 he
        rw [hfind] at hfirst
        cases hfirst
      · exact find?_key_eq_none.1 hfind
    | some first =>
      obtain ⟨hfirst, hname⟩ := (find?_key_eq_some h.nodup).1 hfind
      simp only [hfind, Option.some.injEq, exists_eq_left'] at hfault
      by_cases hline : first.line = u.line
      · simp only [hline, if_true]
        exact Reports.cons (fun e he => ((hfault e).1 he).1 hline)
          (hnext (h.skip hfirst hname hline))
      · simp only [hline, if_false]
        exact reports_of_fault fun e => (hfault e).trans (and_iff_right hline)

theorem reports_merge (vertex fragment : List Uniform) :
    Reports LineFault (vertex ++ fragment) (merge vertex fragment) :=
  reports_mergeInto .nil

/-- Whether no uniform of a list has the name of another. -/
def isNew (merged : List Uniform) (u : Uniform) : Bool :=
  merged.all (·.name != u.name)

theorem isNew_iff {merged : List Uniform} {u : Uniform} :
    isNew merged u = true ↔ merged.find? (·.name == u.name) = none := by
  simp [isNew]

theorem firsts_cons (u : Uniform) (us : List Uniform) :
    firsts (u :: us) = u :: firsts (us.filter (isNew [u])) := by
  rw [firsts, List.eraseDupsBy_cons]
  refine congrArg (fun vs => u :: firsts vs) (List.filter_congr fun v _ => ?_)
  rw [isNew, List.all_cons, List.all_nil, Bool.and_true, bne_comm, bne]
  cases v.name == u.name <;> rfl

theorem mergeInto_eq_ok {merged us rs : List Uniform} (h : mergeInto merged us = .ok rs) :
    rs = merged ++ firsts (us.filter (isNew merged)) := by
  induction us generalizing merged with
  | nil =>
    cases h
    exact (List.append_nil _).symm
  | cons u us ih =>
    rw [mergeInto] at h
    cases hfind : merged.find? (·.name == u.name) with
    | none =>
      rw [hfind] at h
      have hrest : us.filter (isNew (merged ++ [u])) =
          (us.filter (isNew merged)).filter (isNew [u]) := by
        rw [List.filter_filter]
        refine List.filter_congr fun v _ => ?_
        rw [isNew, List.all_append, Bool.and_comm]
        rfl
      rw [ih h, hrest, List.filter_cons_of_pos (isNew_iff.2 hfind), firsts_cons, List.append_assoc]
      rfl
    | some first =>
      rw [hfind] at h
      have hold : ¬ isNew merged u = true := fun hnew => by
        rw [isNew_iff.1 hnew] at hfind
        cases hfind
      rw [List.filter_cons_of_neg hold]
      by_cases hline : first.line = u.line
      · exact ih (by simpa only [hline, if_true] using h)
      · simp only [hline, if_false] at h
        cases h

/-- Merging keeps the first uniform of each name. -/
theorem eq_firsts_of_merge {vertex fragment us : List Uniform}
    (h : merge vertex fragment = .ok us) : us = firsts (vertex ++ fragment) := by
  have hall : (vertex ++ fragment).filter (isNew []) = vertex ++ fragment :=
    List.filter_eq_self.2 fun u _ => rfl
  rw [mergeInto_eq_ok h, List.nil_append, hall]

theorem merges_firsts {us : List Uniform} (h : Faultless LineFault us) : Merges us (firsts us) := by
  obtain ⟨rs, hrs⟩ := (reports_merge [] us).exists_ok.2 h
  have hmerges := Merges.nil.of_mergeInto hrs
  rwa [eq_firsts_of_merge hrs] at hmerges

theorem faultless_lines {us : List Uniform} :
    Faultless LineFault us ↔ ∀ u ∈ us, ∀ w ∈ us, u.name = w.name → u.line = w.line := by
  have hpairs : ∀ before u, (∀ e, ¬ LineFault before u e) ↔
      True ∧ ∀ w ∈ before, w.name = u.name → w.line = u.line := by
    intro before u
    rw [true_and]
    constructor
    · intro h first hfirst hname
      by_contra hline
      exact h _ ⟨first, hfirst, hname, hline, rfl⟩
    · rintro h e ⟨first, hfirst, hname, hline, -⟩
      exact hline (h first hfirst hname)
  rw [faultless_iff_pairwise hpairs]
  constructor
  · rintro ⟨-, h⟩
    exact h.forall_of_forall_of_flip (fun u _ _ => rfl)
      (h.imp fun huw hname => (huw hname.symm).symm)
  · exact fun h => ⟨fun _ _ => trivial, List.pairwise_of_forall_mem_list h⟩

/-! ## Fields -/

theorem field_eq_error {u : Uniform} {e : DeclarationError} : u.field = .error e ↔ TypeFault u e := by
  unfold field
  cases htype : NumericType.ofName? u.typeName with
  | some type =>
    exact iff_of_false nofun fun h => h.1 type (NumericType.ofName?_eq_some.1 htype)
  | none =>
    rw [Except.error.injEq, eq_comm]
    refine (and_iff_right fun type hname => ?_).symm
    rw [NumericType.ofName?_eq_some.2 hname] at htype
    cases htype

theorem fields_eq {us : List Uniform} {fs : List Std140.Field}
    (h : List.Forall₂ (fun u f => u.field = .ok f) us fs) : fields us = fs := by
  induction h with
  | nil => rfl
  | @cons u f us fs hu _ ih =>
    have hsome : u.field.toOption = some f := by rw [hu]; rfl
    rw [← ih]
    exact List.filterMap_cons_some hsome

theorem fields_append (us vs : List Uniform) : fields (us ++ vs) = fields us ++ fields vs :=
  List.filterMap_append

theorem faultless_ends {us : List Uniform} {tell : Uniform → DeclarationError} {limit cursor : Nat}
    (h : cursor ≤ limit) :
    Faultless (fun before u e => limit < Std140.endOf cursor (fields (before ++ [u])) ∧ e = tell u)
      us ↔ Std140.endOf cursor (fields us) ≤ limit := by
  induction us generalizing cursor with
  | nil => exact iff_of_true faultless_nil h
  | cons u us ih =>
    obtain ⟨stop, hstop⟩ : ∃ stop, ∀ vs,
        Std140.endOf cursor (fields (u :: vs)) = Std140.endOf stop (fields vs) := by
      refine ⟨Std140.endOf cursor (fields [u]), fun vs => ?_⟩
      rw [← Std140.endOf_append, ← fields_append, List.singleton_append]
    have hu : Std140.endOf cursor (fields ([] ++ [u])) = stop := hstop []
    simp only [faultless_cons, List.cons_append, hstop, hu]
    by_cases hle : stop ≤ limit
    · rw [ih hle]
      exact and_iff_right fun e he => absurd he.1 (Nat.not_lt.2 hle)
    · refine iff_of_false (fun hall => hall.1 (tell u) ⟨Nat.lt_of_not_le hle, rfl⟩) fun hend => ?_
      exact hle (Nat.le_trans (Std140.le_endOf _ _) hend)

theorem faultless_sizes {us : List Uniform} :
    Faultless SizeFault us ↔
      Std140.bufferSize (fields us) ≤ ObjectLayout.maxBufferSize.toNat := by
  rw [Std140.bufferSize_le_iff (by decide)]
  exact faultless_ends (Nat.zero_le _)

theorem faultless_types {us : List Uniform} :
    Faultless (fun _ => TypeFault) us ↔ ∀ u ∈ us, ∃ type : NumericType, type.name = u.typeName := by
  rw [faultless_iff_forall]
  refine forall₂_congr fun u _ => ?_
  constructor
  · intro h
    by_contra hnone
    exact h _ ⟨not_exists.1 hnone, rfl⟩
  · rintro ⟨type, htype⟩ e he
    exact he.1 type htype

end Glsl.Uniform

/-! ## Allocating -/

namespace ObjectLayout

variable {us own : List Uniform} {fields : List Std140.Field}

theorem lineOf_eq {u : Uniform} (hn : (us.map (·.name)).Nodup) (hu : u ∈ us) :
    lineOf us u.name = u.line := by
  rw [lineOf, (find?_key_eq_some hn).2 ⟨hu, rfl⟩]
  rfl

/-- The uniform of the first field that does not fit is found by its name. -/
theorem reports_sizes (hn : (us.map (·.name)).Nodup) (hown : own ⊆ us)
    (hfields : own.mapM (·.field) = .ok fields) {textures : BindGroup} :
    Reports Uniform.SizeFault own
      (match Std140.Layout.ofFieldsWithin maxBufferSize fields with
      | .ok uniforms => .ok ⟨uniforms, textures⟩
      | .error name => .error (.uniformBufferTooLarge name maxBufferSize.toNat (lineOf us name)) :
        Except DeclarationError ObjectLayout) := by
  have hreports := Std140.Layout.reports_ofFieldsWithin (show 16 ∣ maxBufferSize.toNat by decide)
    (by decide) fields
  have hsame : List.Forall₂ (fun u f => u ∈ us ∧ u.field = .ok f) own fields :=
    (List.forall₂_and_left own fields).2 ⟨fun u hu => hown hu, mapM_eq_ok.1 hfields⟩
  have hfault : ∀ e, FirstFault Uniform.SizeFault own e ↔ ∃ name,
      FirstFault (fun before f name =>
        maxBufferSize.toNat < Std140.endOf 0 (before ++ [f]) ∧ f.name = name) fields name ∧
      .uniformBufferTooLarge name maxBufferSize.toNat (lineOf us name) = e := by
    refine firstFault_iff_of_forall₂ ?_ hsame
    rintro before before' u f hbefore ⟨hu, hfield⟩ e
    have hends : Uniform.fields (before ++ [u]) = before' ++ [f] :=
      Uniform.fields_eq (List.rel_append (hbefore.imp fun _ _ h => h.2) (.cons hfield .nil))
    rw [Uniform.SizeFault, hends, ← lineOf_eq hn hu, ← (Uniform.eq_of_field hfield).1, eq_comm]
    simp only [and_assoc, exists_and_left, exists_eq_left']
  intro e
  simp only [hfault, ← hreports _]
  cases Std140.Layout.ofFieldsWithin maxBufferSize fields with
  | ok uniforms => exact iff_of_false nofun nofun
  | error name => simp

/-- Allocation finds fault with unknown types before it finds fault with the size. -/
theorem reports_allocate (tiers : ResourceTiers) (hn : (us.map (·.name)).Nodup) :
    ReportsFirstOf [FirstFault (fun _ => Uniform.TypeFault) (ownNumerics tiers us),
      FirstFault Uniform.SizeFault (ownNumerics tiers us)] (allocate tiers us) := by
  rw [allocate, fieldsOf, ← ownNumerics_eq]
  refine ReportsFirstOf.bind (reports_mapM fun u _ e => Uniform.field_eq_error) fun fields hfields => ?_
  exact reportsFirstOf_singleton (reports_sizes hn (List.filter_subset_self us) hfields)

end ObjectLayout

end ForwardShading
