import ForwardShading.Glsl.Declaration
import ForwardShading.Proofs.Checked
import ForwardShading.Proofs.Text.Search
import ForwardShading.Proofs.Text.Words

/-!
# What the line of a uniform writes

The line of a uniform is a precision where it has one, a type, and a name: alone, or with a number of
elements in brackets.  A uniform that was read has the precision, the type, the name and the number
that its line writes (`Glsl.Uniform.writes_of_parse`).
-/

namespace ForwardShading.Glsl

open Text

namespace Declarator

/-- Holds of a text that declares a name: alone, or with a number of elements in brackets. -/
def Writes (name : List Char) (written : Option UInt32) (cs : List Char) : Prop :=
  match written with
  | none => '[' ∉ cs ∧ cs = name
  | some n => ∃ before size after, cs = before ++ '[' :: (size ++ ']' :: after) ∧ trim before = name ∧
      '[' ∉ before ∧ ']' ∉ after ∧ word32? (trim size) = some n

/-- A text writes at most one number of elements. -/
theorem Writes.unique {name name' cs : List Char} {written written' : Option UInt32}
    (h : Writes name written cs) (h' : Writes name' written' cs) : written = written' := by
  cases written with
  | none =>
    cases written' with
    | none => rfl
    | some n' =>
      obtain ⟨before, size, after, rfl, -⟩ := h'
      exact absurd (List.mem_append_right _ List.mem_cons_self) h.1
  | some n =>
    obtain ⟨before, size, after, rfl, -, hbefore, hafter, hsize⟩ := h
    cases written' with
    | none => exact absurd (List.mem_append_right _ List.mem_cons_self) h'.1
    | some n' =>
      obtain ⟨before', size', after', heq, -, hbefore', hafter', hsize'⟩ := h'
      -- Both readings break the text at its first `[`, and what follows at its last `]`.
      have hfirst := breakAt_append_cons hbefore (size ++ ']' :: after)
      rw [heq, breakAt_append_cons hbefore'] at hfirst
      obtain ⟨-, hrest⟩ := Prod.mk.inj (Option.some.inj hfirst)
      have hlast : breakAtLast ']' (size ++ ']' :: after) = some (size, after) :=
        breakAtLast_eq_some.2 ⟨rfl, hafter⟩
      rw [← hrest, breakAtLast_eq_some.2 ⟨rfl, hafter'⟩] at hlast
      obtain ⟨rfl, -⟩ := Prod.mk.inj (Option.some.inj hlast)
      exact hsize.symm.trans hsize'

theorem exists_writes_of_split {line : String} {cs : List Char} {d : Declarator}
    (h : split line cs = .ok d) : ∃ written, Writes d.name written cs ∧ d.arraySize = written.getD 0 := by
  unfold split at h
  split at h
  · rename_i hopen
    cases h
    exact ⟨none, ⟨breakAt_eq_none.1 hopen, rfl⟩, rfl⟩
  · rename_i name rest hopen
    split at h
    · cases h
    · rename_i size after hclose
      split at h
      · cases h
      · rename_i n hsize
        cases h
        obtain ⟨rfl, hafter⟩ := breakAtLast_eq_some.1 hclose
        exact ⟨some n, ⟨name, size, after, append_of_breakAt hopen, rfl, notMem_of_breakAt hopen,
          hafter, hsize⟩, rfl⟩

theorem split_of_parse {line : String} {cs : List Char} {d : Declarator} (h : parse line cs = .ok d) :
    split line cs = .ok d := by
  obtain ⟨d', hd', h⟩ := bind_eq_ok.1 h
  split at h
  · cases h
  · cases h
    exact hd'

end Declarator

namespace TypedName

/-- The words of a precision qualifier. -/
def precisionWords (precision : Option Precision) : List (List Char) :=
  (precision.map (·.name.toList)).toList

theorem append_of_takePrecision {ws rest : List (List Char)} {precision : Option Precision}
    (h : takePrecision ws = (precision, rest)) : ws = precisionWords precision ++ rest := by
  cases ws with
  | nil =>
    cases h
    rfl
  | cons w ws =>
    cases hp : Precision.ofName? (String.ofList w) with
    | none =>
      simp only [takePrecision, hp] at h
      cases h
      rfl
    | some p =>
      simp only [takePrecision, hp] at h
      cases h
      rw [precisionWords, Option.map_some, Precision.ofName?_eq_some.1 hp, String.toList_ofList]
      rfl

/-- The words of a declaration are its precision, its type and those of its declarator. -/
theorem exists_declarator_of_ofWords {line : String} {ws : List (List Char)} {t : TypedName}
    (h : ofWords line ws = .ok t) :
    ∃ rest d, rest ≠ [] ∧ ws = precisionWords t.precision ++ t.typeName.toList :: rest ∧
      Declarator.parse line (unwords rest) = .ok d ∧ t.name.toList = d.name ∧
      t.arraySize = d.arraySize := by
  unfold ofWords at h
  split at h
  · cases h
  · cases h
  · rename_i precision type rest hrest htake
    obtain ⟨d, hd, h⟩ := bind_eq_ok.1 h
    cases h
    refine ⟨rest, d, ?_, ?_, hd, String.toList_ofList, rfl⟩
    · rintro rfl
      exact hrest rfl
    · rw [String.toList_ofList]
      exact append_of_takePrecision htake

end TypedName

namespace Uniform

/-- Holds of a uniform whose line writes its precision, its type and its name, and a number of elements
if any. -/
def Writes (u : Uniform) (written : Option UInt32) : Prop :=
  ∃ declarator, Declarator.Writes u.name.toList written declarator ∧
    u.line.toList = unwords (TypedName.precisionWords u.precision ++ [u.typeName.toList, declarator])

theorem Writes.unique {u : Uniform} {written written' : Option UInt32} (h : u.Writes written)
    (h' : u.Writes written') : written = written' := by
  obtain ⟨declarator, hwrites, hline⟩ := h
  obtain ⟨declarator', hwrites', hline'⟩ := h'
  rw [hline, List.append_cons, List.append_cons _ _ [declarator']] at hline'
  rw [unwords_concat_inj hline'] at hwrites
  exact hwrites.unique hwrites'

/-- What is read of a uniform behind its precision and its type is read as one declarator. -/
theorem exists_declarator_of_parse {text : List Char} {u : Uniform} (h : parse text = .ok u) :
    ∃ rest d, rest ≠ [] ∧ AreWords rest ∧ Declarator.parse u.line (unwords rest) = .ok d ∧
      u.name.toList = d.name ∧ u.arraySize = d.arraySize ∧
      u.line.toList =
        unwords (TypedName.precisionWords u.precision ++ [u.typeName.toList, unwords rest]) := by
  unfold parse at h
  split at h
  · cases h
  · obtain ⟨t, ht, h⟩ := bind_eq_ok.1 h
    obtain ⟨sampler, -, h⟩ := bind_eq_ok.1 h
    cases h
    obtain ⟨rest, d, hrest, hwords, hparse, hname, hsize⟩ := TypedName.exists_declarator_of_ofWords ht
    have hareWords : AreWords rest := by
      intro w hw
      refine areWords_words text w ?_
      rw [hwords]
      exact List.mem_append_right _ (List.mem_cons_of_mem _ hw)
    refine ⟨rest, d, hrest, hareWords, hparse, hname, hsize, ?_⟩
    rw [normalForm, String.toList_ofList, collapse, hwords, List.append_cons, unwords_append hrest,
      ← List.append_cons]

theorem exists_writes_of_parse {text : List Char} {u : Uniform} (h : parse text = .ok u) :
    ∃ written, u.Writes written ∧ u.arraySize = written.getD 0 := by
  obtain ⟨rest, d, -, -, hparse, hname, hsize, hline⟩ := exists_declarator_of_parse h
  obtain ⟨written, hwrites, hwritten⟩ :=
    Declarator.exists_writes_of_split (Declarator.split_of_parse hparse)
  exact ⟨written, ⟨unwords rest, hname ▸ hwrites, hline⟩, hsize.trans hwritten⟩

theorem line_of_parse {text : List Char} {u : Uniform} (h : parse text = .ok u) :
    u.line.toList = collapse text := by
  unfold parse at h
  split at h
  · cases h
  · obtain ⟨t, -, h⟩ := bind_eq_ok.1 h
    obtain ⟨sampler, -, h⟩ := bind_eq_ok.1 h
    cases h
    exact String.toList_ofList

/-- All that is read off a uniform is in its line. -/
theorem eq_of_line {text text' : List Char} {u u' : Uniform} (h : parse text = .ok u)
    (h' : parse text' = .ok u') (hline : u.line = u'.line) : u = u' := by
  have hcollapse : collapse text = collapse text' := by
    rw [← line_of_parse h, ← line_of_parse h', hline]
  have hwords : words text = words text' := by
    rw [← words_collapse text, hcollapse, words_collapse]
  have hparse : parse text = parse text' := by
    simp only [parse, normalForm, hcollapse, hwords]
  rw [hparse, h'] at h
  exact (Except.ok.inj h).symm

end Uniform

theorem Output.line_of_parse {text : List Char} {o : Output} (h : Output.parse text = .ok o) :
    o.line.toList = collapse text ∧ 2 ≤ (words text).length := by
  unfold Output.parse at h
  split at h
  · cases h
  · rename_i hlength
    cases h
    exact ⟨String.toList_ofList, Nat.not_lt.1 hlength⟩

end ForwardShading.Glsl
