import ForwardShading.Program.VariantCache
import Mathlib.Data.List.Basic

/-!
# What a variant cache answers

A cache answers a request with the variant it keeps for the key, and with a new one where it keeps
none (`VariantCache.getOrBuild_cases`).  When descriptions go with keys (`Describes`) and every
request brings the description of its key, every answer is what building that description gives
(`VariantCache.BuiltFrom.fst_getOrBuild`), whatever was requested before.
-/

namespace ForwardShading

namespace VariantCache

variable {κ : Type} [DecidableEq κ]

/-- All that a request does. -/
theorem getOrBuild_cases (c : VariantCache κ) (k : κ)
    (describe : Unit → Definition × Surroundings) :
    (∃ v, c.get? k = some v ∧ c.getOrBuild k describe = (v, c)) ∨
    (c.get? k = none ∧ c.getOrBuild k describe =
      (build c.dialect k (describe ()),
        { c with variants := c.variants ++ [build c.dialect k (describe ())],
                 builds := c.builds + 1 })) := by
  unfold getOrBuild
  cases h : c.get? k with
  | some v => exact Or.inl ⟨v, rfl, rfl⟩
  | none => exact Or.inr ⟨rfl, rfl⟩

theorem mem_of_get? {c : VariantCache κ} {k : κ} {v : Variant κ} (h : c.get? k = some v) :
    v ∈ c.variants ∧ v.key = k :=
  ⟨List.mem_of_find?_eq_some h, by simpa using List.find?_some h⟩

@[simp]
theorem dialect_getOrBuild (c : VariantCache κ) (k : κ)
    (describe : Unit → Definition × Surroundings) :
    (c.getOrBuild k describe).2.dialect = c.dialect := by
  obtain ⟨v, -, e⟩ | ⟨-, e⟩ := c.getOrBuild_cases k describe <;> rw [e]

theorem get?_getOrBuild (c : VariantCache κ) (k : κ)
    (describe : Unit → Definition × Surroundings) :
    (c.getOrBuild k describe).2.get? k = some (c.getOrBuild k describe).1 := by
  obtain ⟨v, hv, e⟩ | ⟨hn, e⟩ := c.getOrBuild_cases k describe
  · rw [e, hv]
  · rw [e]
    unfold get? at hn ⊢
    rw [List.find?_append, hn, Option.none_or]
    simp [build]

/-- A request leaves what the cache has for other keys, and for its own. -/
theorem get?_getOrBuild_of_get? {c : VariantCache κ} {k : κ} {v : Variant κ} (h : c.get? k = some v)
    (k' : κ) (describe : Unit → Definition × Surroundings) :
    (c.getOrBuild k' describe).2.get? k = some v := by
  obtain ⟨w, -, e⟩ | ⟨-, e⟩ := c.getOrBuild_cases k' describe
  · rw [e, h]
  · rw [e]
    unfold get? at h ⊢
    rw [List.find?_append, h, Option.some_or]

theorem fst_getOrBuild_of_get? {c : VariantCache κ} {k : κ} {v : Variant κ} (h : c.get? k = some v)
    (describe : Unit → Definition × Surroundings) : (c.getOrBuild k describe).1 = v := by
  unfold getOrBuild
  rw [h]

/-- Every kept variant was built from a description that goes with its key. -/
def BuiltFrom (Describes : κ → Definition × Surroundings → Prop) (c : VariantCache κ) : Prop :=
  ∀ v ∈ c.variants, ∃ d, Describes v.key d ∧ v = build c.dialect v.key d

section BuiltFrom

variable {Describes : κ → Definition × Surroundings → Prop} {c : VariantCache κ}

omit [DecidableEq κ] in
theorem builtFrom_empty (dialect : Dialect) :
    (empty dialect : VariantCache κ).BuiltFrom Describes :=
  fun _ h => absurd h List.not_mem_nil

/-- A request with a description of its key keeps the provenance of all variants. -/
theorem BuiltFrom.snd_getOrBuild (h : c.BuiltFrom Describes) {k : κ}
    {describe : Unit → Definition × Surroundings} (hk : Describes k (describe ())) :
    (c.getOrBuild k describe).2.BuiltFrom Describes := by
  obtain ⟨v, -, e⟩ | ⟨-, e⟩ := c.getOrBuild_cases k describe
  · rwa [e]
  · rw [e]
    intro v hv
    rcases List.mem_append.1 hv with hv | hv
    · exact h v hv
    · rw [List.mem_singleton.1 hv]
      exact ⟨describe (), hk, rfl⟩

/-- Where a key has one description, a request is answered by what building that one gives. -/
theorem BuiltFrom.fst_getOrBuild (h : c.BuiltFrom Describes) {k : κ}
    {describe : Unit → Definition × Surroundings} (hk : ∀ d, Describes k d → d = describe ()) :
    (c.getOrBuild k describe).1 = build c.dialect k (describe ()) := by
  obtain ⟨v, hv, e⟩ | ⟨-, e⟩ := c.getOrBuild_cases k describe
  · obtain ⟨hm, rfl⟩ := mem_of_get? hv
    obtain ⟨d, hd, hb⟩ := h v hm
    rw [e, ← hk d hd]
    exact hb
  · rw [e]

end BuiltFrom

end VariantCache

end ForwardShading
