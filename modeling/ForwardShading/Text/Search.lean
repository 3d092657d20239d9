/-!
# Searching a text

`breakOn` finds the first occurrence of a pattern, `breakAtLast` the last occurrence of a character.
-/

namespace ForwardShading.Text

/-- The text after a pattern at the front. -/
def stripStart : List Char → List Char → Option (List Char)
  | [], cs => some cs
  | _ :: _, [] => none
  | d :: ds, c :: cs => if d = c then stripStart ds cs else none

theorem stripStart_eq_some {pattern cs rest : List Char} :
    stripStart pattern cs = some rest ↔ cs = pattern ++ rest := by
  fun_induction stripStart pattern cs with
  | case1 => simp
  | case2 => simp
  | case3 d ds cs ih => simp [ih]
  | case4 d ds c cs h => simp [Ne.symm h]

/-- The texts before and after the first occurrence of the pattern. -/
def breakOn (pattern : List Char) : List Char → Option (List Char × List Char)
  | [] => if pattern.isEmpty then some ([], []) else none
  | c :: cs =>
    match stripStart pattern (c :: cs) with
    | some rest => some ([], rest)
    | none => (breakOn pattern cs).map fun (before, after) => (c :: before, after)

/-- Whether a pattern occurs in a text. -/
def occursIn (pattern cs : List Char) : Bool :=
  (breakOn pattern cs).isSome

/-- The texts before and after the first occurrence of a character. -/
def breakAt (d : Char) (cs : List Char) : Option (List Char × List Char) :=
  match cs.dropWhile (· != d) with
  | [] => none
  | _ :: after => some (cs.takeWhile (· != d), after)

/-- The texts before and after the last occurrence of a character. -/
def breakAtLast (d : Char) (cs : List Char) : Option (List Char × List Char) :=
  (breakAt d cs.reverse).map fun (after, before) => (before.reverse, after.reverse)

theorem append_of_breakOn {pattern cs before after : List Char}
    (h : breakOn pattern cs = some (before, after)) : cs = before ++ pattern ++ after := by
  induction cs generalizing before with
  | nil =>
    unfold breakOn at h
    split at h
    · simp_all
    · cases h
  | cons c cs ih =>
    unfold breakOn at h
    split at h
    · rename_i rest hp
      obtain ⟨rfl, rfl⟩ : [] = before ∧ rest = after := by simpa using h
      exact stripStart_eq_some.1 hp
    · obtain ⟨⟨b, a⟩, hb, he⟩ := Option.map_eq_some_iff.1 h
      obtain ⟨rfl, rfl⟩ : c :: b = before ∧ a = after := by simpa using he
      rw [ih hb]
      rfl

theorem append_of_breakAt {d : Char} {cs before after : List Char}
    (h : breakAt d cs = some (before, after)) : cs = before ++ d :: after := by
  unfold breakAt at h
  split at h
  · cases h
  · rename_i x rest hx
    obtain ⟨rfl, rfl⟩ : cs.takeWhile (· != d) = before ∧ rest = after := by simpa using h
    have hd : x = d := by
      have := List.head?_dropWhile_not (· != d) cs
      simpa [hx] using this
    subst hd
    rw [← hx, List.takeWhile_append_dropWhile]

end ForwardShading.Text
