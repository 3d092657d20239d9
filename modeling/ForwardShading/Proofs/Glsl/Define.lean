import ForwardShading.Glsl.Define
import ForwardShading.Proofs.Glsl.Lines
import ForwardShading.Proofs.Text.Numeral

/-!
# Inserted defines

The line of a define is a directive if its name has no newline.  Such lines declare nothing where
they are inserted, but a name can open or close a block comment and so change what is read behind
it.  The line of a plain define cannot: texts that differ in such lines declare the same
(`Define.exists_declarations_insertAll`).
-/

namespace ForwardShading.Glsl

open Text

namespace Define

variable {c : Char} {d : Define} {ds : List Define}

/-- The line of a define between the hash and the newline. -/
def line (d : Define) : List Char :=
  "define ".toList ++ d.name.toList ++ (if d.value = "" then [] else ' ' :: d.value.toList)

theorem text_eq (d : Define) : d.text = '#' :: d.line ++ ['\n'] :=
  rfl

/-- A define whose name and value are words. -/
def IsPlain (d : Define) : Prop :=
  ∀ c ∈ d.name.toList ++ d.value.toList, isWordChar c = true

instance (d : Define) : Decidable d.IsPlain :=
  decidable_of_iff _ List.all_eq_true

theorem notMem_line (hc : c ∉ "define ".toList) (hname : c ∉ d.name.toList)
    (hvalue : c ∉ d.value.toList) : c ∉ d.line := by
  have hspace : c ≠ ' ' := by
    rintro rfl
    exact hc (by decide)
  unfold line
  split_ifs <;> simp_all

theorem IsPlain.notMem_line (h : d.IsPlain) (hc : isWordChar c = false) (hspace : c ≠ ' ') :
    c ∉ d.line := by
  have hmem : c ∉ d.name.toList ++ d.value.toList := fun hm => by simp [h c hm] at hc
  rw [List.mem_append, not_or] at hmem
  refine Define.notMem_line (fun hm => ?_) hmem.1 hmem.2
  have hall : "define ".toList.all (fun x => isWordChar x || x == ' ') = true := by decide
  simpa [hc, hspace] using List.all_eq_true.1 hall c hm

theorem isWordChar_of_mem_toString {n : Nat} (h : c ∈ (toString n).toList) :
    isWordChar c = true := by
  simp [isWordChar, Char.isAlphanum, isDigit_of_mem_toString h]

/-- A value is written without a newline. -/
theorem newline_notMem_value {name : String} {v : DefineValue} (h : ofValue? name v = some d) :
    '\n' ∉ d.value.toList := by
  have hdigits : ∀ n : Nat, '\n' ∉ (toString n).toList := fun n hn =>
    absurd (isDigit_of_mem_toString hn) (by decide)
  cases v with
  | flag on =>
    cases on with
    | false => cases h
    | true =>
      cases h
      simp
  | int n =>
    cases h
    cases n.toInt with
    | ofNat m => exact hdigits m
    | negSucc m =>
      rw [show toString (Int.negSucc m) = "-" ++ toString (m + 1) from rfl, String.toList_append,
        List.mem_append, not_or]
      exact ⟨by decide, hdigits (m + 1)⟩
  | uint n =>
    cases h
    exact hdigits _

theorem name_of_ofValue? {name : String} {v : DefineValue} (h : ofValue? name v = some d) :
    d.name = name := by
  cases v with
  | flag on =>
    cases on with
    | false => cases h
    | true => cases h; rfl
  | int n | uint n => cases h; rfl

/-! ## What can be read off the text of defines -/

/-- Lines that are ended by their newlines can be told from each other. -/
theorem map_line_eq_of_flatMap_text_eq {ds' : List Define} (h : ∀ d ∈ ds, '\n' ∉ d.line)
    (h' : ∀ d ∈ ds', '\n' ∉ d.line) (heq : ds.flatMap text = ds'.flatMap text) :
    ds.map line = ds'.map line := by
  induction ds generalizing ds' with
  | nil =>
    cases ds' with
    | nil => rfl
    | cons d' ds' => simp [text_eq] at heq
  | cons d ds ih =>
    cases ds' with
    | nil => simp [text_eq] at heq
    | cons d' ds' =>
      obtain ⟨hd, hds⟩ := List.forall_mem_cons.1 h
      obtain ⟨hd', hds'⟩ := List.forall_mem_cons.1 h'
      simp only [List.flatMap_cons, text_eq, List.cons_append, List.append_assoc, List.nil_append,
        List.cons.injEq, true_and] at heq
      have hbreak := congrArg (breakAt '\n') heq
      rw [breakAt_append_cons hd, breakAt_append_cons hd', Option.some.injEq, Prod.mk.injEq] at hbreak
      rw [List.map_cons, List.map_cons, hbreak.1, ih hds hds' hbreak.2]

theorem line_toString_inj {name : String} {n m : Nat}
    (h : line ⟨name, toString n⟩ = line ⟨name, toString m⟩) : n = m := by
  have hvalue : ∀ n : Nat, toString n ≠ "" := fun n hn => by
    have hdigits : Nat.toDigits 10 n = [] := by rw [← toList_toString, hn]; rfl
    exact Nat.toDigits_ne_nil hdigits
  have hline : ∀ n : Nat, line ⟨name, toString n⟩ =
      "define ".toList ++ name.toList ++ ' ' :: (toString n).toList := fun n => by
    show "define ".toList ++ name.toList ++ (if toString n = "" then [] else _) = _
    rw [if_neg (hvalue n)]
  rw [hline, hline, List.append_cancel_left_eq, List.cons.injEq] at h
  exact toString_inj.1 (String.toList_injective h.2)

/-! ## What defines leave behind -/

theorem exists_passes_text {s : ScanState} (hs : s.AtLineStart) (h : ∀ d ∈ ds, '\n' ∉ d.line) :
    ∃ t : ScanState, t.AtLineStart ∧ s.Passes (ds.flatMap text) t := by
  induction ds generalizing s with
  | nil => exact ⟨s, hs, .refl s⟩
  | cons d ds ih =>
    obtain ⟨t, ht, hd⟩ := ScanState.exists_passes_directive hs (h d List.mem_cons_self)
    obtain ⟨u, hu, hds⟩ := ih ht fun x hx => h x (List.mem_cons_of_mem d hx)
    refine ⟨u, hu, ?_⟩
    rw [List.flatMap_cons, text_eq]
    exact hd.append hds

theorem passes_text_of_isPlain {s : ScanState} (hs : s.AtLineStart) (h : ∀ d ∈ ds, d.IsPlain) :
    s.Passes (ds.flatMap text) s := by
  induction ds with
  | nil => exact .refl s
  | cons d ds ih =>
    have hd := h d List.mem_cons_self
    rw [List.flatMap_cons, text_eq]
    exact (ScanState.passes_directive_of_notMem hs (hd.notMem_line (by decide) (by decide))
      (hd.notMem_line (by decide) (by decide))).append
        (ih fun x hx => h x (List.mem_cons_of_mem d hx))

theorem toList_insertAll (h : ds ≠ []) (source : String) :
    (insertAll ds source).toList = insertAfterVersion source.toList (ds.flatMap text) := by
  cases ds with
  | nil => exact absurd rfl h
  | cons d ds => exact String.toList_ofList

/-- What a text declares behind inserted lines does not depend on the plain ones at their end. -/
theorem exists_declarations_insertAll {common : List Define} (h : ∀ d ∈ common, '\n' ∉ d.line)
    (source : String) :
    ∃ result, ∀ extra : List Define, extra ≠ [] → (∀ d ∈ extra, d.IsPlain) →
      Piece.declarations (scan .start (insertAll (common ++ extra) source).toList) = result := by
  obtain ⟨t, ht, hversion⟩ := ScanState.exists_passes_version source.toList
  obtain ⟨u, hu, hcommon⟩ := exists_passes_text ht h
  refine ⟨u.declarations (splitVersion source.toList).2, fun extra hne hextra => ?_⟩
  have hpass := (hversion.append hcommon).append (passes_text_of_isPlain hu hextra)
  rw [toList_insertAll (by simp [hne]), ← hpass, List.append_assoc _ (common.flatMap text),
    ← List.flatMap_append]
  rfl

end Define

end ForwardShading.Glsl
