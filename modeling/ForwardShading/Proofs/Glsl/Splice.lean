import ForwardShading.Glsl.Version
import ForwardShading.Proofs.Glsl.Dissection

/-!
# Where a spliced block stands

A block goes to the first marker of a residual.  That is the marker line that stands for the first
statement, unless the text in front of that statement has a marker of its own: then the block takes
the place of that one, and the marker line stays (`Stage.splice_residual`).
-/

namespace ForwardShading.Glsl

open Text

namespace Dissection

/-- The text in front of the first statement.  Where there is no statement that is all text. -/
def front (d : Dissection) : List Char :=
  match d.cuts with
  | [] => d.last
  | c :: _ => c.before

/-- The marker line of the first statement, and the text kept behind it. -/
def rear (d : Dissection) : List Char :=
  match d.cuts with
  | [] => []
  | _ :: cs => marker ++ '\n' :: kept ⟨cs, d.last⟩

/-- The kept text with a block on a line in place of the first statement.  Where there is no
statement, the block stands behind the version line. -/
def withBlock (d : Dissection) (block : List Char) : List Char :=
  match d.cuts with
  | [] => insertAfterVersion d.last block
  | c :: cs => c.before ++ block ++ '\n' :: kept ⟨cs, d.last⟩

/-- The kept text with a block, which takes the place of a marker in front of the first statement if
there is one. -/
def spliced (d : Dissection) (block : List Char) : List Char :=
  match breakOn marker d.front with
  | none => d.withBlock block
  | some (before, after) => before ++ block ++ after ++ d.rear

theorem residual_eq (d : Dissection) : d.residual = d.front ++ d.rear := by
  obtain ⟨cuts, last⟩ := d
  cases cuts with
  | nil => exact (List.append_nil last).symm
  | cons c cs => exact List.append_assoc _ _ _

theorem endsLine_front {d : Dissection} (h : d.Placed) (hcuts : d.cuts ≠ []) :
    EndsLine d.front := by
  obtain ⟨cuts, last⟩ := d
  cases cuts with
  | nil => exact absurd rfl hcuts
  | cons c cs => exact h c List.mem_cons_self

/-- A marker does not stand across the end of a line. -/
theorem EndsLine.notMem_marker {cs : List Char} (h : EndsLine cs) :
    ∀ c ∈ cs.getLast?, c ∉ marker := by
  rcases h with rfl | h
  · exact fun c hc => absurd hc (by simp)
  · intro c hc
    rw [Option.mem_def, h, Option.some.injEq] at hc
    rw [← hc]
    decide

theorem toList_splice_residual {d : Dissection} (h : d.Placed) (block : String) :
    (splice (String.ofList d.residual) block).toList = d.spliced block.toList := by
  rw [splice, String.toList_ofList, String.toList_ofList, residual_eq, spliced]
  cases hfront : breakOn marker d.front with
  | some parts =>
    obtain ⟨before, after⟩ := parts
    rw [breakOn_append_of_eq_some (by decide) hfront]
    exact (List.append_assoc _ _ _).symm
  | none =>
    obtain ⟨cuts, last⟩ := d
    cases cuts with
    | nil =>
      rw [front] at hfront
      simp only [front, rear, List.append_nil, hfront, withBlock]
    | cons c cs =>
      have hends := endsLine_front h (List.cons_ne_nil c cs)
      rw [breakOn_append_of_eq_none hends.notMem_marker hfront, rear,
        breakOn_eq_some_nil (by simp [marker]) rfl]
      simp only [Option.map_some, List.append_nil]
      rfl

theorem length_insertAfterVersion (cs block : List Char) :
    cs.length + block.length ≤ (insertAfterVersion cs block).length := by
  have hsplit := congrArg List.length (splitVersion_append cs)
  simp only [insertAfterVersion, List.length_append] at hsplit ⊢
  omega

/-- Where the text in front of the first statement has a marker, no text goes in its place. -/
theorem spliced_ne_withBlock {d : Dissection} (h : d.Placed) {before after : List Char}
    (hfront : breakOn marker d.front = some (before, after)) : d.spliced [] ≠ d.withBlock [] := by
  have htext := append_of_breakOn hfront
  rw [spliced, hfront]
  intro heq
  obtain ⟨cuts, last⟩ := d
  cases cuts with
  | nil =>
    have hlength := length_insertAfterVersion last []
    have hlast := congrArg List.length htext
    rw [show insertAfterVersion last [] = before ++ [] ++ after ++ [] from heq.symm] at hlength
    simp only [front, marker, List.length_append, List.length_nil] at hlength hlast
    simp at hlast
    omega
  | cons c cs =>
    -- A text that ends with the marker does not end a line.
    have hswap : after ++ marker = marker ++ after := by
      have hline : before ++ (after ++ marker) ++ '\n' :: kept ⟨cs, last⟩ =
          before ++ (marker ++ after) ++ '\n' :: kept ⟨cs, last⟩ := by
        simpa [rear, withBlock, show c.before = _ from htext] using heq
      exact List.append_cancel_left (List.append_cancel_right hline)
    have hends := endsLine_front h (List.cons_ne_nil c cs)
    rw [htext, List.append_assoc, ← hswap] at hends
    rcases hends with hnil | hlast
    · simp [marker] at hnil
    · rw [← List.append_assoc, List.getLast?_append] at hlast
      exact absurd hlast (by simp [marker])

end Dissection

/-- Where a block goes that is spliced into the residual of a stage.  It stands where the first
declaration was, or behind the version line where there is none, for every block exactly if the text
in front has no marker of its own. -/
theorem Stage.splice_residual {source : String} {stage : Stage}
    (h : ofSource source = .ok stage) :
    let d := Dissection.ofSource source
    d.Accounts source stage ∧
    (∀ block, (splice stage.residual block).toList = d.spliced block.toList) ∧
    ((∀ block, (splice stage.residual block).toList = d.withBlock block.toList) ↔
      occursIn marker d.front = false) := by
  intro d
  have haccounts : d.Accounts source stage := Dissection.accounts_ofSource h
  have hsplice : ∀ block, (splice stage.residual block).toList = d.spliced block.toList := by
    intro block
    rw [← Dissection.toList_splice_residual haccounts.placed, ← haccounts.residual,
      String.ofList_toList]
  refine ⟨haccounts, hsplice, ?_⟩
  simp only [hsplice]
  cases hfront : breakOn marker d.front with
  | none => simp [occursIn, hfront, Dissection.spliced]
  | some parts =>
    have hne := Dissection.spliced_ne_withBlock haccounts.placed hfront
    have hoccurs : occursIn marker d.front = true := by rw [occursIn, hfront]; rfl
    rw [hoccurs]
    exact ⟨fun hall => absurd (hall "") hne, fun h => absurd h (by decide)⟩

/-- A text that has the marker in a comment in front of its declaration. -/
def commentedMarker : String :=
  "// @@@\nuniform float a;\n"

theorem ofSource_commentedMarker :
    Stage.ofSource commentedMarker =
      .ok ⟨"// @@@\n@@@\n", [.uniform ⟨"float a", none, "float", "a", 0, none⟩]⟩ := by
  decide +kernel

/-- A text that has the marker in a comment behind its declaration. -/
def trailingMarker : String :=
  "#version 450\nuniform float a;\n// @@@\n"

/-- A block stands in place of the declaration where the comment is behind it, and inside of the comment
where that is in front. -/
theorem Stage.splice_residual_commentedMarker :
    (∃ stage, ofSource trailingMarker = .ok stage ∧
      let d := Dissection.ofSource trailingMarker
      d.Accounts trailingMarker stage ∧
      (∀ block, (splice stage.residual block).toList = d.withBlock block.toList) ∧
      ∀ block, (splice stage.residual block).toList =
        "#version 450\n".toList ++ block.toList ++ "\n// @@@\n".toList) ∧
    ∃ stage, ofSource commentedMarker = .ok stage ∧
      let d := Dissection.ofSource commentedMarker
      d.Accounts commentedMarker stage ∧
      (∀ block, (splice stage.residual block).toList = d.spliced block.toList) ∧
      ∀ block, (splice stage.residual block).toList =
        "// ".toList ++ block.toList ++ "\n@@@\n".toList := by
  have htrailing : ofSource trailingMarker =
      .ok ⟨"#version 450\n@@@\n// @@@\n", [.uniform ⟨"float a", none, "float", "a", 0, none⟩]⟩ := by
    decide +kernel
  have hbehind : breakOn marker "#version 450\n@@@\n// @@@\n".toList =
      some ("#version 450\n".toList, "\n// @@@\n".toList) := by
    decide
  have hinside : breakOn marker "// @@@\n@@@\n".toList =
      some ("// ".toList, "\n@@@\n".toList) := by
    decide
  obtain ⟨haccounts, -, hiff⟩ := splice_residual htrailing
  obtain ⟨haccounts', hspliced, -⟩ := splice_residual ofSource_commentedMarker
  refine ⟨⟨_, htrailing, haccounts, hiff.2 (by decide +kernel), fun block => ?_⟩, _,
    ofSource_commentedMarker, haccounts', hspliced, fun block => ?_⟩
  · rw [splice, hbehind, String.toList_ofList]
  · rw [splice, hinside, String.toList_ofList]

/-- The marker in the comment takes the block, and the marker line of the declaration stays. -/
theorem Stage.not_withBlock_commentedMarker :
    ¬ ∀ stage, ofSource commentedMarker = .ok stage → ∀ block,
      (splice stage.residual block).toList =
        (Dissection.ofSource commentedMarker).withBlock block.toList :=
  fun h => absurd (h _ ofSource_commentedMarker "") (by decide +kernel)

end ForwardShading.Glsl
