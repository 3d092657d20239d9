import ForwardShading.Proofs.Glsl.Declaration
import ForwardShading.Proofs.Text.Numeral

/-!
# How declarations of uniforms are spelled

A declaration of a uniform is spelled by its precision where it has one, its type, and its name: alone,
or with a number of elements in brackets.  White space parts them, and may stand around the brackets and
the number.  A text that spells a declaration is read as that declaration, and the line that was read is
read as the same again (`Uniform.parse_spelled`).  Not every line that is read spells one: a text behind
the brackets is dropped, and a number of zero elements is like no brackets (`Uniform.exact_iff`).
-/

namespace ForwardShading.Glsl

open Text

namespace Declarator

/-- Holds of the texts that spell a name, alone or with a number of elements. -/
inductive Spells (name : List Char) : Option UInt32 → List Char → Prop
  | alone : Spells name none name
  | sized {n : UInt32} {front before numeral behind : List Char} (hfront : IsGap front)
      (hbefore : IsGap before) (hnumeral : IsNumeral n numeral) (hbehind : IsGap behind) :
      Spells name (some n) (name ++ (front ++ '[' :: (before ++ (numeral ++ (behind ++ [']'])))))

variable {name cs : List Char} {size : Option UInt32}

/-- White space collapses to what may stand in the same places. -/
theorem Spells.collapse (h : Spells name size cs) (hname : IsWord name) :
    Spells name size (collapse cs) := by
  cases h with
  | alone =>
    rw [collapse_of_isWord hname]
    exact .alone
  | @sized n front before numeral behind hfront hbefore hnumeral hbehind =>
    have hopen : isWhite '[' = false := by decide
    have hclose : isWhite ']' = false := by decide
    have hword := hnumeral.isWord
    have hbrackets : Text.collapse ('[' :: (before ++ (numeral ++ (behind ++ [']'])))) =
        '[' :: (narrowed before ++ (numeral ++ (narrowed behind ++ [']']))) :=
      calc Text.collapse ('[' :: (before ++ (numeral ++ (behind ++ [']']))))
          = '[' :: (narrowed before ++ Text.collapse (numeral ++ (behind ++ [']']))) :=
            collapse_append (isWord_singleton hopen) hbefore (hword.startsWord _)
        _ = '[' :: (narrowed before ++ (numeral ++ (narrowed behind ++ Text.collapse [']']))) := by
            rw [collapse_append hword hbehind (startsWord_cons hclose [])]
        _ = _ := by
            rw [collapse_of_isWord (isWord_singleton hclose)]
    rw [collapse_append hname hfront (startsWord_cons hopen _), hbrackets]
    exact .sized (isGap_narrowed _) (isGap_narrowed _) hnumeral (isGap_narrowed _)

theorem Spells.eq_of_none (h : Spells name none cs) : cs = name := by
  cases h
  rfl

theorem Spells.bracket_mem {n : UInt32} (h : Spells name (some n) cs) : '[' ∈ cs := by
  cases h
  simp

theorem Spells.getLast?_eq {n : UInt32} (h : Spells name (some n) cs) : cs.getLast? = some ']' := by
  cases h
  simp only [← List.append_assoc, ← List.cons_append, List.getLast?_concat]

theorem Spells.ne_nil (h : Spells name size cs) (hname : IsWord name) : cs ≠ [] := by
  cases h with
  | alone => exact hname.1
  | sized => simp

/-- What is spelled has no character but those of the name, white space and the characters of sizes. -/
theorem Spells.mem {c : Char} (h : Spells name size cs) (hc : c ∈ cs) :
    c ∈ name ∨ isWhite c = true ∨ c = '[' ∨ c = ']' ∨ c = '+' ∨ c.isDigit = true := by
  cases h with
  | alone => exact .inl hc
  | @sized n front before numeral behind hfront hbefore hnumeral hbehind =>
    simp only [List.mem_append, List.mem_cons, List.not_mem_nil, or_false] at hc
    rcases hc with hc | hc | rfl | hc | hc | hc | rfl
    · exact .inl hc
    · exact .inr (.inl (hfront c hc))
    · simp
    · exact .inr (.inl (hbefore c hc))
    · rcases hnumeral.eq_plus_or_isDigit c hc with rfl | hdigit <;> simp [*]
    · exact .inr (.inl (hbehind c hc))
    · simp

/-- A name without an opening bracket, and the number behind it, can be told apart. -/
theorem Spells.writes (h : Spells name size cs) (hname : IsWord name) (hopen : '[' ∉ name) :
    Writes name size cs := by
  cases h with
  | alone => exact ⟨hopen, rfl⟩
  | @sized n front before numeral behind hfront hbefore hnumeral hbehind =>
    have hfront' : '[' ∉ front := fun hmem => absurd (hfront _ hmem) (by decide)
    refine ⟨name ++ front, before ++ (numeral ++ behind), [], by simp, ?_, ?_, List.not_mem_nil, ?_⟩
    · exact trim_eq_of_isWord isGap_nil hname hfront
    · exact fun hmem => (List.mem_append.1 hmem).elim hopen hfront'
    · rw [trim_eq_of_isWord hbefore hnumeral.isWord hbehind]
      exact word32?_eq_some.2 hnumeral

theorem split_of_writes (line : String) (h : Writes name size cs) :
    split line cs = .ok ⟨name, size.getD 0⟩ := by
  unfold split
  cases size with
  | none =>
    obtain ⟨hopen, rfl⟩ := h
    rw [breakAt_eq_none.2 hopen]
    rfl
  | some n =>
    obtain ⟨before, number, after, rfl, rfl, hbefore, hafter, hnumber⟩ := h
    simp only [breakAt_append_cons hbefore, breakAtLast_eq_some.2 ⟨rfl, hafter⟩, hnumber]
    rfl

/-- A spelled name is read with its number of elements. -/
theorem parse_of_spells (line : String) (h : Spells name size cs) (hname : IsWord name)
    (hopen : '[' ∉ name) : parse line cs = .ok ⟨name, size.getD 0⟩ := by
  have hblank : ' ' ∉ name := fun hmem => absurd (hname.2 _ hmem) (by decide)
  rw [parse, split_of_writes line (h.writes hname hopen)]
  exact if_neg (not_or.2 ⟨hname.1, hblank⟩)

theorem Writes.bracket_notMem (h : Writes name size cs) : '[' ∉ name := by
  cases size with
  | none =>
    obtain ⟨hopen, rfl⟩ := h
    exact hopen
  | some n =>
    obtain ⟨before, number, after, -, rfl, hopen, -⟩ := h
    obtain ⟨lead, trail, -, -, hbefore⟩ := exists_gaps_trim before
    intro hmem
    rw [hbefore] at hopen
    exact hopen (List.mem_append_right _ (List.mem_append_left _ hmem))

/-- A text that writes a name spells it, and goes on with what is not read. -/
theorem Writes.exists_spells (h : Writes name size cs) (hcs : StartsWord cs) :
    ∃ declarator after, Spells name size declarator ∧ cs = declarator ++ after ∧
      (size = none → after = []) ∧ ']' ∉ after := by
  cases size with
  | none =>
    obtain ⟨-, rfl⟩ := h
    exact ⟨cs, [], .alone, (List.append_nil cs).symm, fun _ => rfl, List.not_mem_nil⟩
  | some n =>
    obtain ⟨before, number, after, rfl, rfl, -, hafter, hnumber⟩ := h
    obtain ⟨lead, trail, hlead, htrail, hbefore⟩ := exists_gaps_trim before
    obtain ⟨lead', trail', hlead', htrail', hnumber'⟩ := exists_gaps_trim number
    have hnil : lead = [] := by
      obtain ⟨c, rest, heq, hc⟩ := hcs
      cases lead with
      | nil => rfl
      | cons d lead =>
        rw [hbefore] at heq
        have hd : isWhite d = true := hlead d List.mem_cons_self
        rw [(List.cons.inj heq).1, hc] at hd
        cases hd
    refine ⟨_, after, .sized htrail hlead' (word32?_eq_some.1 hnumber) htrail', ?_, nofun, hafter⟩
    conv_lhs => rw [hbefore, hnumber', hnil]
    simp only [List.nil_append, List.append_assoc, List.cons_append]

end Declarator

namespace TypedName

theorem isWord_and_comma_notMem {precision : Option Precision} {w : List Char}
    (h : w ∈ precisionWords precision) : IsWord w ∧ ',' ∉ w := by
  cases precision with
  | none => cases h
  | some p =>
    obtain rfl := List.mem_singleton.1 h
    cases p <;> decide

/-- A precision is taken off only if the type is not read as one. -/
theorem takePrecision_append {precision : Option Precision} {type : String}
    (h : precision = none → ∀ p : Precision, p.name ≠ type) (rest : List (List Char)) :
    takePrecision (precisionWords precision ++ type.toList :: rest) =
      (precision, type.toList :: rest) := by
  cases precision with
  | some p =>
    have hname : Precision.ofName? (String.ofList p.name.toList) = some p := by
      rw [String.ofList_toList]
      exact Precision.ofName?_eq_some.2 rfl
    show takePrecision (p.name.toList :: type.toList :: rest) = _
    rw [takePrecision, hname]
  | none =>
    have hname : Precision.ofName? (String.ofList type.toList) = none := by
      rw [String.ofList_toList]
      refine Option.eq_none_iff_forall_ne_some.2 fun p hp => ?_
      exact h rfl p (Precision.ofName?_eq_some.1 hp)
    show takePrecision (type.toList :: rest) = _
    rw [takePrecision, hname]

theorem ofWords_append {precision : Option Precision} {type : String}
    (h : precision = none → ∀ p : Precision, p.name ≠ type) {rest : List (List Char)}
    (hrest : rest ≠ []) {line : String} {d : Declarator}
    (hd : Declarator.parse line (unwords rest) = .ok d) :
    ofWords line (precisionWords precision ++ type.toList :: rest) =
      .ok ⟨precision, type, String.ofList d.name, d.arraySize⟩ := by
  obtain ⟨w, ws, rfl⟩ := List.exists_cons_of_ne_nil hrest
  rw [ofWords, takePrecision_append h]
  simp only [hd, String.ofList_toList]
  rfl

end TypedName

namespace Uniform

/-- Holds of the parts of a declaration that can be told apart again: a type and a name that are words
without a comma.  A sampler type is one that is supported. -/
structure Separable (precision : Option Precision) (type name : String) : Prop where
  type_isWord : IsWord type.toList
  name_isWord : IsWord name.toList
  comma_type : ',' ∉ type.toList
  comma_name : ',' ∉ name.toList
  bracket_name : '[' ∉ name.toList
  type_ne : precision = none → ∀ p : Precision, p.name ≠ type
  sampler : "sampler".toList <:+: type.toList → ∃ t ∈ SamplerType.all, t.name = type

theorem samplerOf_eq {type : String}
    (h : "sampler".toList <:+: type.toList → ∃ t ∈ SamplerType.all, t.name = type) (line : String) :
    samplerOf type line = .ok (SamplerType.ofName? type) := by
  unfold samplerOf
  by_cases hoccurs : occursIn "sampler".toList type.toList = true
  · obtain ⟨t, ht, rfl⟩ := h (by
      by_contra hnot
      rw [occursIn, breakOn_eq_none.2 hnot] at hoccurs
      cases hoccurs)
    rw [if_pos hoccurs, SamplerType.ofName?_name ht]
  · have hnone : SamplerType.ofName? type = none := by
      refine Option.eq_none_iff_forall_ne_some.2 fun t ht => hoccurs ?_
      obtain ⟨hmem, rfl⟩ := SamplerType.mem_all_of_ofName? ht
      have hall : ∀ t ∈ SamplerType.all, occursIn "sampler".toList t.name.toList = true := by
        decide +kernel
      exact hall t hmem
    rw [if_neg hoccurs, hnone]

/-- A text is read by its words, which are those of its line. -/
theorem parse_collapse (text : List Char) : parse (collapse text) = parse text := by
  simp only [parse, normalForm, collapse_collapse, words_collapse]

section Reading

variable {precision : Option Precision} {type name : String} {size : Option UInt32}
  {declarator text : List Char}

theorem words_of_spaced (hparts : Separable precision type name)
    (htext : Spaced (TypedName.precisionWords precision ++ [type.toList, declarator]) text) :
    words text = TypedName.precisionWords precision ++ type.toList :: words declarator := by
  have hprecision : (TypedName.precisionWords precision).flatMap words =
      TypedName.precisionWords precision := by
    refine (List.flatMap_congr fun w hw => ?_).trans (List.flatMap_singleton' _)
    exact words_of_isWord (TypedName.isWord_and_comma_notMem hw).1
  rw [htext.words_eq, List.flatMap_append, hprecision, List.flatMap_cons, List.flatMap_singleton,
    words_of_isWord hparts.type_isWord, List.singleton_append]

theorem comma_notMem_unwords (hparts : Separable precision type name)
    (hspells : Declarator.Spells name.toList size declarator) :
    ',' ∉ unwords (TypedName.precisionWords precision ++ [type.toList, declarator]) := by
  intro hmem
  rcases mem_unwords hmem with hblank | ⟨w, hw, hc⟩
  · exact absurd hblank (by decide)
  · simp only [List.mem_append, List.mem_cons, List.not_mem_nil, or_false] at hw
    rcases hw with hw | rfl | rfl
    · exact (TypedName.isWord_and_comma_notMem hw).2 hc
    · exact hparts.comma_type hc
    · rcases hspells.mem hc with hname | hclass
      · exact hparts.comma_name hname
      · exact absurd hclass (by decide)

end Reading

/-- A text that spells a declaration is read as it, and a line that was read is read as the same. -/
theorem parse_spelled :
    (∀ (precision : Option Precision) (type name : String) (size : Option UInt32)
      (declarator text : List Char), Separable precision type name →
        Declarator.Spells name.toList size declarator →
        Spaced (TypedName.precisionWords precision ++ [type.toList, declarator]) text →
        parse text = .ok ⟨normalForm text, precision, type, name, size.getD 0,
          SamplerType.ofName? type⟩) ∧
    ∀ text u, parse text = .ok u → parse u.line.toList = .ok u := by
  refine ⟨fun precision type name size declarator text hparts hspells htext => ?_, fun text u h => ?_⟩
  · -- The words of the declarator are put together again before its brackets are looked for.
    have hdeclarator := hspells.collapse hparts.name_isWord
    have hrest : words declarator ≠ [] := fun hnil =>
      hdeclarator.ne_nil hparts.name_isWord (congrArg unwords hnil)
    have hwords := words_of_spaced hparts htext
    have hcomma : ',' ∉ collapse text := by
      rw [collapse, hwords, List.append_cons, unwords_append hrest, ← List.append_cons]
      exact comma_notMem_unwords hparts hdeclarator
    have hd := Declarator.parse_of_spells (normalForm text) hdeclarator hparts.name_isWord
      hparts.bracket_name
    rw [parse, if_neg hcomma, hwords, TypedName.ofWords_append hparts.type_ne hrest hd]
    simp only [bind, Except.bind, samplerOf_eq hparts.sampler, String.ofList_toList]
    rfl
  · rw [line_of_parse h, parse_collapse, h]

/-- The name is that of a precision with a bracket behind it, and the number has a sign and a zero. -/
theorem parse_spelled_crowded :
    let text := "\tlowp\u00a0 vec4\nhighp] [ +04\u2003]\n".toList
    let line := "lowp vec4 highp] [ +04 ]"
    let declarator := "highp] [ +04\u2003]".toList
    Separable (some .low) "vec4" "highp]" ∧
      Declarator.Spells "highp]".toList (some 4) declarator ∧
      Spaced (TypedName.precisionWords (some .low) ++ ["vec4".toList, declarator]) text ∧
      parse text = .ok ⟨line, some .low, "vec4", "highp]", 4, none⟩ ∧
      parse line.toList = .ok ⟨line, some .low, "vec4", "highp]", 4, none⟩ := by
  intro text line declarator
  have hparts : Separable (some .low) "vec4" "highp]" :=
    ⟨by decide, by decide, by decide, by decide, by decide, nofun, by decide⟩
  have hdeclarator : declarator =
      "highp]".toList ++ ([' '] ++ '[' :: ([' '] ++ ("+04".toList ++ (['\u2003'] ++ [']'])))) := by
    decide
  have htext' : text = ['\t'] ++ (Precision.low.name.toList ++ ("\u00a0 ".toList ++
      ([] ++ ("vec4".toList ++ (['\n'] ++ ([] ++ (declarator ++ ['\n']))))))) := by
    decide
  have hspells : Declarator.Spells "highp]".toList (some 4) declarator := by
    rw [hdeclarator]
    exact .sized (by decide) (by decide) ⟨['+'], 1, .inr rfl, by decide⟩ (by decide)
  have htext : Spaced (TypedName.precisionWords (some .low) ++ ["vec4".toList, declarator]) text := by
    rw [htext']
    exact .cons (by decide) (by decide) (by decide)
      (.cons (by decide) (by decide) (by decide) (.last (by decide) (by decide)))
  have hparse := parse_spelled.1 _ _ _ _ _ _ hparts hspells htext
  have hline : normalForm text = line := by decide +kernel
  have hsampler : SamplerType.ofName? "vec4" = none := by decide +kernel
  rw [hline, hsampler, Option.getD_some] at hparse
  have hagain := parse_spelled.2 text _ hparse
  exact ⟨hparts, hspells, htext, hparse, hagain⟩

/-! ## Lines that are read -/

/-- Holds of a uniform whose line spells it and nothing else, with brackets exactly if it has elements. -/
def Exact (u : Uniform) : Prop :=
  ∃ size declarator, Declarator.Spells u.name.toList size declarator ∧
    u.line.toList =
      unwords (TypedName.precisionWords u.precision ++ [u.typeName.toList, declarator]) ∧
    u.arraySize = size.getD 0 ∧ (size.isSome ↔ u.arraySize ≠ 0)

theorem exists_spells {text : List Char} {u : Uniform} (h : parse text = .ok u) :
    ∃ size declarator after, '[' ∉ u.name.toList ∧ Declarator.Spells u.name.toList size declarator ∧
      u.line.toList =
        unwords (TypedName.precisionWords u.precision ++ [u.typeName.toList, declarator ++ after]) ∧
      u.arraySize = size.getD 0 ∧ (size = none → after = []) ∧ ']' ∉ after := by
  obtain ⟨rest, d, hrest, hareWords, hparse, hname, hsize, hline⟩ := exists_declarator_of_parse h
  obtain ⟨size, hwrites, hwritten⟩ :=
    Declarator.exists_writes_of_split (Declarator.split_of_parse hparse)
  rw [← hname] at hwrites
  obtain ⟨declarator, after, hspells, heq, hafter, hclose⟩ :=
    hwrites.exists_spells (startsWord_unwords hareWords hrest)
  exact ⟨size, declarator, after, hwrites.bracket_notMem, hspells, heq ▸ hline,
    hsize.trans hwritten, hafter, hclose⟩

/-- A line has one text behind the type, so that is what spells the name. -/
theorem Exact.exists_spells {u : Uniform} (h : u.Exact) (declarator : List Char)
    (hline : u.line.toList =
      unwords (TypedName.precisionWords u.precision ++ [u.typeName.toList, declarator])) :
    ∃ size, Declarator.Spells u.name.toList size declarator ∧ (size.isSome ↔ u.arraySize ≠ 0) := by
  obtain ⟨size, declarator', hspells, hline', -, hbrackets⟩ := h
  rw [hline, List.append_cons, List.append_cons _ _ [declarator']] at hline'
  exact ⟨size, unwords_concat_inj hline' ▸ hspells, hbrackets⟩

/-- What is read has a line that spells it, but any text may stand behind the brackets.  The line spells
the uniform and nothing else exactly if no text does, and the number in the brackets is not zero. -/
theorem exact_iff {text : List Char} {u : Uniform} (h : parse text = .ok u) :
    ∃ size declarator after, Declarator.Spells u.name.toList size declarator ∧
      u.line.toList =
        unwords (TypedName.precisionWords u.precision ++ [u.typeName.toList, declarator ++ after]) ∧
      u.arraySize = size.getD 0 ∧ (size = none → after = []) ∧ ']' ∉ after ∧
      (u.Exact ↔ after = [] ∧ size ≠ some 0) := by
  obtain ⟨size, declarator, after, hopen, hspells, hline, hsize, hafter, hclose⟩ := exists_spells h
  refine ⟨size, declarator, after, hspells, hline, hsize, hafter, hclose, ?_⟩
  constructor
  · intro hexact
    obtain ⟨size', hspells', hbrackets⟩ := hexact.exists_spells _ hline
    cases size' with
    | none =>
      have hname := hspells'.eq_of_none
      cases size with
      | none => exact ⟨hafter rfl, nofun⟩
      | some n => exact absurd (hname ▸ List.mem_append_left after hspells.bracket_mem) hopen
    | some n' =>
      have hlast := hspells'.getLast?_eq
      refine ⟨?_, fun hzero => hbrackets.1 rfl (by rw [hsize, hzero]; rfl)⟩
      by_contra hne
      rw [List.getLast?_append_of_ne_nil _ hne] at hlast
      exact hclose (List.mem_of_getLast? hlast)
  · rintro ⟨rfl, hzero⟩
    rw [List.append_nil] at hline
    refine ⟨size, declarator, hspells, hline, hsize, ?_⟩
    cases size with
    | none => simp [hsize]
    | some n => simpa [hsize] using hzero

/-- The last word of this line is read by no part of the declaration. -/
theorem exact_iff_trailing :
    let u : Uniform := ⟨"lowp vec4 tints [4] shadows", some .low, "vec4", "tints", 4, none⟩
    parse "lowp vec4 tints [4] shadows".toList = .ok u ∧
      ∃ size declarator after, Declarator.Spells "tints".toList size declarator ∧
        u.line.toList = unwords ["lowp".toList, "vec4".toList, declarator ++ after] ∧
        4 = size.getD 0 ∧ (size = none → after = []) ∧ ']' ∉ after ∧
        (u.Exact ↔ after = [] ∧ size ≠ some 0) := by
  intro u
  have h : parse "lowp vec4 tints [4] shadows".toList = .ok u := by decide +kernel
  exact ⟨h, exact_iff h⟩

/-- A text behind the brackets is dropped, and zero elements are read as none. -/
theorem not_exact_trailing :
    (∃ u, parse "vec4 tints[4] shadows".toList = .ok u ∧ ¬ u.Exact) ∧
      ∃ u, parse "vec4 tints[0]".toList = .ok u ∧ ¬ u.Exact := by
  refine ⟨⟨⟨"vec4 tints[4] shadows", none, "vec4", "tints", 4, none⟩, by decide +kernel, fun h => ?_⟩,
    ⟨⟨"vec4 tints[0]", none, "vec4", "tints", 0, none⟩, by decide +kernel, fun h => ?_⟩⟩
  · obtain ⟨size, hspells, -⟩ := h.exists_spells "tints[4] shadows".toList (by decide)
    cases size with
    | none => exact absurd hspells.eq_of_none (by decide)
    | some n => exact absurd hspells.getLast?_eq (by decide)
  · obtain ⟨size, hspells, hbrackets⟩ := h.exists_spells "tints[0]".toList (by decide)
    cases size with
    | none => exact absurd hspells.eq_of_none (by decide)
    | some n => exact hbrackets.1 rfl rfl

end Uniform

end ForwardShading.Glsl
