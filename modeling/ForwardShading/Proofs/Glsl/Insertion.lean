import ForwardShading.Program.Definition
import ForwardShading.Proofs.Glsl.Define

/-!
# Repeated insertion

What is inserted into a text stands behind its version line, at a place that the text keeps
(`splitVersion_insertAfterVersion`).  The newline that an unterminated version line needs is there
when lines are inserted for a second time, and no `#define` line is taken for a version line.  So
lines that are inserted one list after the other stand in front of those that came before
(`Define.insertAll_insertAll`), in both stages of a program (`Definition.withDefines_withDefines`).
-/

namespace ForwardShading

namespace Glsl

open Text ScanState

variable {cs block : List Char}

/-- Holds of a text that hides a version line behind it. -/
def HidesVersion (block : List Char) : Prop :=
  ∀ rest, splitVersion (block ++ rest) = ([], block ++ rest)

/-- A second insertion finds the place of the first one, with the newline that it needs. -/
theorem splitVersion_insertAfterVersion (h : HidesVersion block) (cs : List Char) :
    splitVersion (insertAfterVersion cs block) =
      ((splitVersion cs).1 ++ missingNewline (splitVersion cs).1, block ++ (splitVersion cs).2) := by
  have hinserted : insertAfterVersion cs block =
      (splitVersion cs).1 ++ missingNewline (splitVersion cs).1 ++
        (block ++ (splitVersion cs).2) := List.append_assoc _ _ _
  rw [hinserted]
  rcases splitVersion_fst cs with hnil | ⟨ws, line, hws, hline, heq⟩
  · rw [hnil]
    exact h _
  · rw [heq, List.append_assoc _ ['\n']]
    exact splitVersion_line hws hline _

/-- A newline is missing once. -/
theorem missingNewline_append_missingNewline (cs : List Char) :
    missingNewline (cs ++ missingNewline cs) = [] := by
  by_cases h : cs = [] ∨ cs.getLast? = some '\n'
  · have hnone : missingNewline cs = [] := if_pos h
    rw [hnone, List.append_nil, hnone]
  · rw [show missingNewline cs = ['\n'] from if_neg h]
    exact missingNewline_concat cs

theorem insertAfterVersion_insertAfterVersion (h : HidesVersion block) (cs block' : List Char) :
    insertAfterVersion (insertAfterVersion cs block) block' =
      insertAfterVersion cs (block' ++ block) := by
  rw [insertAfterVersion, splitVersion_insertAfterVersion h]
  simp only [missingNewline_append_missingNewline, insertAfterVersion, List.append_nil,
    List.append_assoc]

namespace Define

variable {ds es : List Define}

theorem hidesVersion_text (h : ds ≠ []) : HidesVersion (ds.flatMap text) := by
  intro rest
  obtain ⟨d, ds, rfl⟩ := List.exists_cons_of_ne_nil h
  rfl

/-- Lines that are inserted later stand in front of those that are there. -/
theorem insertAll_insertAll (ds es : List Define) (source : String) :
    insertAll es (insertAll ds source) = insertAll (es ++ ds) source := by
  by_cases hds : ds = []
  · rw [hds, List.append_nil]
    rfl
  by_cases hes : es = []
  · rw [hes]
    rfl
  refine String.toList_injective ?_
  have hboth : es ++ ds ≠ [] := by simp [hes]
  rw [toList_insertAll hes, toList_insertAll hds, toList_insertAll hboth, List.flatMap_append,
    insertAfterVersion_insertAfterVersion (hidesVersion_text hds)]

example : insertAll [⟨"A", ""⟩] (insertAll [⟨"B", "2"⟩] " #version 450") =
    " #version 450\n#define A\n#define B 2\n" := by decide +kernel

/-- Holds of a text that shows lines between two parts of a source, behind the newline that the
first part may lack. -/
def ShownIn (ds : List Define) (source result : String) : Prop :=
  ∃ front back, source.toList = front ++ back ∧
    result.toList =
      front ++ (if ds = [] then [] else missingNewline front) ++ ds.flatMap text ++ back

theorem shownIn_insertAll (ds : List Define) (source : String) :
    ShownIn ds source (insertAll ds source) := by
  cases ds with
  | nil => exact ⟨[], source.toList, rfl, by simp [insertAll]⟩
  | cons d ds =>
    exact ⟨_, _, (splitVersion_append source.toList).symm,
      toList_insertAll (List.cons_ne_nil d ds) source⟩

end Define

end Glsl

/-- Defines that are added later stand in front of those that are there, in both stages. -/
theorem Definition.withDefines_withDefines (d : Definition) (ds es : List Glsl.Define) :
    (d.withDefines ds).withDefines es = d.withDefines (es ++ ds) ∧
      Glsl.Define.ShownIn (es ++ ds) d.vertex ((d.withDefines ds).withDefines es).vertex ∧
      Glsl.Define.ShownIn (es ++ ds) d.fragment ((d.withDefines ds).withDefines es).fragment := by
  have heq : (d.withDefines ds).withDefines es = d.withDefines (es ++ ds) := by
    simp only [withDefines, Glsl.Define.insertAll_insertAll]
  rw [heq]
  exact ⟨rfl, Glsl.Define.shownIn_insertAll _ _, Glsl.Define.shownIn_insertAll _ _⟩

end ForwardShading
