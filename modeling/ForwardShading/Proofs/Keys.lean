import Mathlib.Data.List.Nodup

/-!
# Entries that are found by a key

Where the entries of a list have different keys, looking for a key finds the one entry that has it
(`find?_key_eq_some`).
-/

namespace ForwardShading

variable {α κ : Type} {key : α → κ} {xs : List α} {x : α} {k : κ}

/-- Keys stay different when an entry with a new one is added. -/
theorem nodup_map_concat (hn : (xs.map key).Nodup) (hx : ∀ y ∈ xs, key y ≠ key x) :
    ((xs ++ [x]).map key).Nodup := by
  simpa [List.nodup_append] using ⟨hn, hx⟩

variable [BEq κ] [LawfulBEq κ]

theorem find?_key_eq_none : xs.find? (key · == k) = none ↔ ∀ x ∈ xs, key x ≠ k := by
  simp

theorem find?_key_eq_some (hn : (xs.map key).Nodup) :
    xs.find? (key · == k) = some x ↔ x ∈ xs ∧ key x = k := by
  constructor
  · exact fun h => ⟨List.mem_of_find?_eq_some h, by simpa using List.find?_some h⟩
  · rintro ⟨hx, rfl⟩
    cases hfind : xs.find? (key · == key x) with
    | none => exact absurd rfl (find?_key_eq_none.1 hfind x hx)
    | some y =>
      have hy : key y = key x := by simpa using List.find?_some hfind
      rw [List.inj_on_of_nodup_map hn (List.mem_of_find?_eq_some hfind) hx hy]

end ForwardShading
