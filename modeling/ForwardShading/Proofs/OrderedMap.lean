import ForwardShading.OrderedMap
import Mathlib.Data.List.Nodup
import Mathlib.Data.List.Perm.Basic

/-!
# Look-ups in ordered maps

The keys of a map ascend, so each is there once (`OrderedMap.nodup_keys`) and a look-up finds the
one entry of its key (`OrderedMap.get?_eq_some_iff`).  A map is known by its look-ups
(`OrderedMap.ext_get?`), and the map of a list without repeated keys has the entries of the list, in
whatever order they are given (`OrderedMap.perm_entries_ofList`).
-/

namespace ForwardShading.OrderedMap

variable {κ ν : Type} [Ord κ] {k : κ} {v : ν}

theorem mem_keys {m : OrderedMap κ ν} : k ∈ m.keys ↔ ∃ v, (k, v) ∈ m.entries := by
  simp [keys]

variable [Std.LawfulEqOrd κ] (m : OrderedMap κ ν)

theorem nodup_keys : m.keys.Nodup := by
  refine List.pairwise_map.2 (m.ascending.imp fun {a b} hab h => ?_)
  rw [h, Std.ReflOrd.compare_self] at hab
  cases hab

variable {m}

theorem get?_eq_some_iff : m.get? k = some v ↔ (k, v) ∈ m.entries := by
  constructor
  · intro h
    obtain ⟨⟨k', v'⟩, he, rfl⟩ := Option.map_eq_some_iff.1 h
    have hk : k' = k := by simpa using List.find?_some he
    exact hk ▸ List.mem_of_find?_eq_some he
  · intro h
    obtain ⟨e, he⟩ := Option.isSome_iff_exists.1 (List.find?_isSome.2
      ⟨(k, v), h, by simp⟩ :
        (m.entries.find? fun e => compare e.1 k == .eq).isSome)
    have hk : e.1 = k := by simpa using List.find?_some he
    have hev : e = (k, v) :=
      List.inj_on_of_nodup_map m.nodup_keys (List.mem_of_find?_eq_some he) h hk
    rw [get?, he, hev]
    rfl

theorem get?_eq_none_iff : m.get? k = none ↔ k ∉ m.keys := by
  rw [Option.eq_none_iff_forall_not_mem, mem_keys, not_exists]
  exact forall_congr' fun v => not_congr get?_eq_some_iff

theorem perm_insertEntry (v : ν) {es : List (κ × ν)} (h : k ∉ es.map (·.1)) :
    (insertEntry k v es).Perm ((k, v) :: es) := by
  induction es with
  | nil => exact .refl _
  | cons e es ih =>
    rw [List.map_cons, List.mem_cons, not_or] at h
    obtain ⟨hk, hes⟩ := h
    rw [insertEntry]
    cases hcompare : compare k e.1 with
    | lt => exact .refl _
    | eq => exact absurd (Std.LawfulEqOrd.eq_of_compare hcompare) hk
    | gt => exact ((ih hes).cons e).trans (.swap _ _ _)

section Trans

variable [Std.TransOrd κ]

theorem perm_entries_foldl_insert {es : List (κ × ν)} (m : OrderedMap κ ν)
    (h : ((m.entries ++ es).map (·.1)).Nodup) :
    (es.foldl (fun m e => m.insert e.1 e.2) m).entries.Perm (m.entries ++ es) := by
  induction es generalizing m with
  | nil => exact .of_eq (List.append_nil _).symm
  | cons e es ih =>
    have hmiddle : (m.entries ++ e :: es).Perm ((e :: m.entries) ++ es) := List.perm_middle
    have hnodup := (hmiddle.map (·.1)).nodup_iff.1 h
    have hnew : (m.insert e.1 e.2).entries.Perm (e :: m.entries) := by
      rw [List.cons_append, List.map_cons, List.map_append] at hnodup
      exact perm_insertEntry e.2 fun hmem =>
        (List.nodup_cons.1 hnodup).1 (List.mem_append_left _ hmem)
    have hrest := hnew.append_right es
    exact (ih _ ((hrest.map (·.1)).nodup_iff.2 hnodup)).trans (hrest.trans hmiddle.symm)

/-- The map of a list without repeated keys has the entries of the list. -/
theorem perm_entries_ofList {es : List (κ × ν)} (h : (es.map (·.1)).Nodup) :
    (ofList es).entries.Perm es :=
  perm_entries_foldl_insert empty h

/-- Maps are equal if their look-ups are. -/
theorem ext_get? {m m' : OrderedMap κ ν} (h : ∀ k v, m.get? k = some v ↔ m'.get? k = some v) :
    m = m' := by
  have hperm : m.entries.Perm m'.entries := by
    refine (List.perm_ext_iff_of_nodup (List.Nodup.of_map _ m.nodup_keys)
      (List.Nodup.of_map _ m'.nodup_keys)).2 ?_
    rintro ⟨k, v⟩
    rw [← get?_eq_some_iff, h, get?_eq_some_iff]
  have hasymm : ∀ k k' : κ, compare k k' = .lt → compare k' k ≠ .lt := fun _ _ h =>
    Std.OrientedCmp.not_lt_of_lt h
  have hentries : m.entries = m'.entries :=
    hperm.eq_of_pairwise (fun e e' _ _ h h' => absurd h' (hasymm e.1 e'.1 h)) m.ascending m'.ascending
  cases m
  cases hentries
  rfl

end Trans

end ForwardShading.OrderedMap
