import ForwardShading.Proofs.Draw.Prepared
import Mathlib.Data.List.SplitBy

/-!
# Batches

The batches of prepared calls are the pieces of a list that is cut in front of each call that starts
one, so neighbours are in one piece exactly if the second of them starts none
(`PreparedDraws.together_batches_iff`).  That is told by the instances of the two calls
(`PreparedDraws.together_succ_iff`), and goes on from call to call through a batch
(`PreparedDraws.sameState_of_together`).  Calls with the same key carry the variant that the cache has
for it, over any cache (`Environment.get?_of_mem_callsAfter`).
-/

namespace ForwardShading

namespace Batch

/-- Holds of the positions of the calls in a batch. -/
def Holds (b : Batch) (n : Nat) : Prop :=
  b.start ≤ n ∧ n < b.start + b.length

/-- Holds of two positions in one of the batches. -/
def Together (bs : List Batch) (m n : Nat) : Prop :=
  ∃ b ∈ bs, b.Holds m ∧ b.Holds n

/-- Batches one behind the other from `start` to `stop`, none of which is empty. -/
def Tiles (start stop : Nat) : List Batch → Prop
  | [] => start = stop
  | b :: bs => b.start = start ∧ 0 < b.length ∧ Tiles (start + b.length) stop bs

theorem holds_mk_add {start length n : Nat} : Holds ⟨start, length⟩ (start + n) ↔ n < length := by
  simp [Holds]

theorem together_cons {b : Batch} {bs : List Batch} {m n : Nat} :
    Together (b :: bs) m n ↔ (b.Holds m ∧ b.Holds n) ∨ Together bs m n := by
  simp only [Together, List.mem_cons, exists_eq_or_imp]

end Batch

namespace PreparedDraws

open Batch

theorem tiles_runs {α : Type} {gs : List (List α)} (h : ∀ g ∈ gs, g ≠ []) (start : Nat) :
    Tiles start (start + gs.flatten.length) (runs start (gs.map List.length)) := by
  induction gs generalizing start with
  | nil => rfl
  | cons g gs ih =>
    obtain ⟨hg, hgs⟩ := List.forall_mem_cons.1 h
    refine ⟨rfl, List.length_pos_iff.2 hg, ?_⟩
    rw [List.flatten_cons, List.length_append, ← Nat.add_assoc]
    exact ih hgs (start + g.length)

theorem start_le_of_mem_runs {ns : List Nat} {start : Nat} {b : Batch} (h : b ∈ runs start ns) :
    start ≤ b.start := by
  induction ns generalizing start with
  | nil => cases h
  | cons n ns ih =>
    rcases List.mem_cons.1 h with rfl | h
    · exact Nat.le_refl start
    · exact Nat.le_trans (Nat.le_add_right start n) (ih h)

theorem le_of_together_runs {ns : List Nat} {start m n : Nat} (h : Together (runs start ns) m n) :
    start ≤ m := by
  obtain ⟨b, hb, hm, -⟩ := h
  exact Nat.le_trans (start_le_of_mem_runs hb) hm.1

/-- The last entry of a piece and the first behind it do not belong together. -/
theorem joined_eq_false_of_cut {α : Type} {joined : α → α → Bool} {g : List α} {gs : List (List α)}
    (hcuts : (g :: gs).IsChain fun g g' =>
      ∃ hg hg', joined (g.getLast hg) (g'.head hg') = false)
    {a b : α} (ha : g[g.length - 1]? = some a) (hb : gs.flatten[0]? = some b) :
    joined a b = false := by
  cases gs with
  | nil => cases hb
  | cons g' gs =>
    obtain ⟨⟨hg, hg', hjoined⟩, -⟩ := List.isChain_cons_cons.1 hcuts
    rw [List.flatten_cons, List.getElem?_append_left (List.length_pos_iff.2 hg'),
      ← List.head?_eq_getElem?, List.head?_eq_some_head hg', Option.some.injEq] at hb
    rw [← List.getLast?_eq_getElem?, List.getLast?_eq_some_getLast hg, Option.some.injEq] at ha
    rw [← ha, ← hb, hjoined]

/-- Neighbours in the pieces of a list are in one piece if they belong together, where pieces are only
cut between entries that do not. -/
theorem together_runs_iff {α : Type} {joined : α → α → Bool} {gs : List (List α)}
    (hpieces : ∀ g ∈ gs, g ≠ [] ∧ g.IsChain fun a b => joined a b)
    (hcuts : gs.IsChain fun g g' => ∃ hg hg', joined (g.getLast hg) (g'.head hg') = false)
    (start : Nat) {n : Nat} {a b : α} (ha : gs.flatten[n]? = some a)
    (hb : gs.flatten[n + 1]? = some b) :
    Together (runs start (gs.map List.length)) (start + n) (start + n + 1) ↔ joined a b = true := by
  induction gs generalizing start n with
  | nil => cases ha
  | cons g gs ih =>
    obtain ⟨⟨hg, hchain⟩, hrest⟩ := List.forall_mem_cons.1 hpieces
    rw [List.flatten_cons] at ha hb
    rw [List.map_cons, runs, together_cons, Nat.add_assoc, holds_mk_add, holds_mk_add]
    rcases Nat.lt_trichotomy (n + 1) g.length with hin | hlast | hbehind
    · rw [List.getElem?_append_left (by omega), List.getElem?_eq_some_iff] at ha hb
      obtain ⟨hn, rfl⟩ := ha
      obtain ⟨hn', rfl⟩ := hb
      exact iff_of_true (.inl ⟨hn, hn'⟩) (List.isChain_iff_getElem.1 hchain n hin)
    · -- The first piece ends here, so the next one begins with `b`.
      rw [List.getElem?_append_left (by omega)] at ha
      rw [List.getElem?_append_right (by omega), hlast, Nat.sub_self] at hb
      have hcut := joined_eq_false_of_cut hcuts (by rwa [← hlast, Nat.add_sub_cancel]) hb
      refine iff_of_false ?_ (by rw [hcut]; exact Bool.false_ne_true)
      rintro (h | h)
      · omega
      · have := le_of_together_runs h
        omega
    · obtain ⟨k, rfl⟩ : ∃ k, n = g.length + k := ⟨n - g.length, by omega⟩
      rw [List.getElem?_append_right (by omega), Nat.add_sub_cancel_left] at ha
      rw [Nat.add_assoc, List.getElem?_append_right (by omega), Nat.add_sub_cancel_left] at hb
      rw [or_iff_right (by omega), ← ih hrest hcuts.tail (start + g.length) ha hb]
      simp only [Nat.add_assoc]

theorem together_splitBy_iff {α : Type} {joined : α → α → Bool} {as : List α} {n : Nat} {a b : α}
    (ha : as[n]? = some a) (hb : as[n + 1]? = some b) :
    Together (runs 0 ((as.splitBy joined).map List.length)) n (n + 1) ↔ joined a b = true := by
  rw [← List.flatten_splitBy joined as] at ha hb
  have hiff := together_runs_iff
    (fun g hg => ⟨List.ne_nil_of_mem_splitBy hg, List.isChain_of_mem_splitBy hg⟩)
    (List.isChain_getLast_head_splitBy joined as) 0 ha hb
  rwa [Nat.zero_add] at hiff

variable {p : PreparedDraws} {n : Nat} {a b : DrawCall}

theorem tiles_batches (p : PreparedDraws) : Tiles 0 p.calls.length p.batches := by
  have htiles := tiles_runs
    (fun g (hg : g ∈ p.calls.splitBy fun _ next => !next.startsBatch) =>
      List.ne_nil_of_mem_splitBy hg) 0
  rwa [List.flatten_splitBy, Nat.zero_add] at htiles

theorem together_batches_iff (ha : p.calls[n]? = some a) (hb : p.calls[n + 1]? = some b) :
    Together p.batches n (n + 1) ↔ b.startsBatch = false := by
  rw [batches, together_splitBy_iff ha hb, Bool.not_eq_true']

end PreparedDraws

/-! ## Calls with the same state -/

/-- What two calls need to have in common to be in one batch. -/
structure DrawCall.SameState (a b : DrawCall) : Prop where
  material : a.object.material = b.object.material
  shaderFlags : a.object.shaderFlags = b.object.shaderFlags
  mask : a.object.mask = b.object.mask

namespace DrawCall.SameState

variable {a b c : DrawCall}

theorem refl (a : DrawCall) : a.SameState a :=
  ⟨rfl, rfl, rfl⟩

theorem symm (h : a.SameState b) : b.SameState a :=
  ⟨h.material.symm, h.shaderFlags.symm, h.mask.symm⟩

theorem trans (hab : a.SameState b) (hbc : b.SameState c) : a.SameState c :=
  ⟨hab.material.trans hbc.material, hab.shaderFlags.trans hbc.shaderFlags,
    hab.mask.trans hbc.mask⟩

end DrawCall.SameState

theorem Follows.startsBatch_eq_false_iff {a b : DrawCall} (h : Follows (some a) b) :
    b.startsBatch = false ↔ a.SameState b := by
  rw [DrawCall.startsBatch, Bool.or_eq_false_iff, h.newMaterial_eq_false_iff,
    h.maskChanged_eq_false_iff]
  exact ⟨fun h => ⟨h.1.1, h.1.2, h.2⟩, fun h => ⟨⟨h.material, h.shaderFlags⟩, h.mask⟩⟩

namespace PreparedDraws

open Batch

variable {p : PreparedDraws} {m n : Nat} {a b : DrawCall}

/-- Neighbours are in one batch exactly if they have the same state. -/
theorem together_succ_iff (hl : Linked none p.calls) (ha : p.calls[n]? = some a)
    (hb : p.calls[n + 1]? = some b) : Together p.batches n (n + 1) ↔ a.SameState b := by
  rw [together_batches_iff ha hb, (hl.follows_succ ha hb).startsBatch_eq_false_iff]

theorem sameState_of_holds (hl : Linked none p.calls) {r : Batch} (hr : r ∈ p.batches)
    (hm : r.Holds m) (k : Nat) (hk : r.Holds (m + k)) (ha : p.calls[m]? = some a)
    (hb : p.calls[m + k]? = some b) : a.SameState b := by
  induction k generalizing b with
  | zero =>
    rw [Nat.add_zero, ha] at hb
    cases hb
    exact .refl a
  | succ k ih =>
    have hprevious : r.Holds (m + k) := ⟨Nat.le_add_right_of_le hm.1, Nat.lt_of_succ_lt hk.2⟩
    obtain ⟨hlt, -⟩ := List.getElem?_eq_some_iff.1 hb
    have hc := List.getElem?_eq_getElem (Nat.lt_of_succ_lt hlt)
    exact (ih hprevious hc).trans ((together_succ_iff hl hc hb).1 ⟨r, hr, hprevious, hk⟩)

theorem sameState_of_together (hl : Linked none p.calls) (h : Together p.batches m n)
    (ha : p.calls[m]? = some a) (hb : p.calls[n]? = some b) : a.SameState b := by
  obtain ⟨r, hr, hm, hn⟩ := h
  rcases Nat.le_total m n with hle | hle
  · obtain ⟨k, rfl⟩ := Nat.exists_eq_add_of_le hle
    exact sameState_of_holds hl hr hm k hn ha hb
  · obtain ⟨k, rfl⟩ := Nat.exists_eq_add_of_le hle
    exact (sameState_of_holds hl hr hn k hm hb ha).symm

end PreparedDraws

/-! ## Preparation -/

namespace Environment

variable (e : Environment) (materials : MaterialTable) (lights : SortedLights) (pass : ShaderPass)

section Variants

variable {cache : VariantCache VariantKey} {previous : Option Instance}

/-- What a cache has before a preparation, it has behind it. -/
theorem get?_callsAfter {k : VariantKey} {v : Variant VariantKey} (h : cache.get? k = some v)
    (is : List (Instance × Nat)) :
    (e.callsAfter materials lights pass cache previous is).2.get? k = some v := by
  induction is generalizing cache previous with
  | nil => exact h
  | cons x is ih =>
    obtain ⟨i, n⟩ := x
    cases hi : i.isEmpty with
    | true =>
      rw [callsAfter_cons_of_isEmpty _ _ _ _ hi]
      exact ih h
    | false =>
      rw [callsAfter_cons _ _ _ _ hi]
      exact ih (VariantCache.get?_getOrBuild_of_get? h _ _)

/-- Each call carries the variant that the cache has in the end for the key of its instance. -/
theorem get?_of_mem_callsAfter (is : List (Instance × Nat)) :
    ∀ c ∈ (e.callsAfter materials lights pass cache previous is).1,
      (e.callsAfter materials lights pass cache previous is).2.get?
        (e.key materials lights pass c.object) = some c.variant := by
  induction is generalizing cache previous with
  | nil => exact fun c hc => absurd hc List.not_mem_nil
  | cons x is ih =>
    obtain ⟨i, n⟩ := x
    cases hi : i.isEmpty with
    | true =>
      rw [callsAfter_cons_of_isEmpty _ _ _ _ hi]
      exact ih
    | false =>
      rw [callsAfter_cons _ _ _ _ hi]
      intro c hc
      rcases List.mem_cons.1 hc with rfl | hc
      · exact e.get?_callsAfter materials lights pass (VariantCache.get?_getOrBuild _ _ _) is
      · exact ih c hc

end Variants

/-- An instance has a call or is counted as skipped. -/
theorem length_calls_prepare (cache : VariantCache VariantKey) (is : List Instance) :
    (e.prepare materials cache is lights pass).1.calls.length +
      (e.prepare materials cache is lights pass).1.skipped = is.length := by
  have hcalls := congrArg List.length (e.map_object_prepare materials lights pass cache is)
  have hskipped : (e.prepare materials cache is lights pass).1.skipped =
    is.countP (·.isEmpty) := rfl
  rw [List.length_map, ← List.countP_eq_length_filter] at hcalls
  rw [hcalls, hskipped, Nat.add_comm, List.length_eq_countP_add_countP fun i : Instance => i.isEmpty]
  simp only [Bool.not_eq_true, Bool.decide_eq_false]

/-- What preparation makes of instances: calls in their order, cut into batches where the state of the
draw changes, each with the one variant of its key. -/
structure Batches (cache : VariantCache VariantKey) (is : List Instance) (p : PreparedDraws)
    (after : VariantCache VariantKey) : Prop where
  calls : p.calls.map (fun c => (c.object, c.index)) = is.zipIdx.filter fun x => !x.1.isEmpty
  skipped : p.calls.length + p.skipped = is.length
  tiles : Batch.Tiles 0 p.calls.length p.batches
  neighbours : ∀ n a b, p.calls[n]? = some a → p.calls[n + 1]? = some b →
    (Batch.Together p.batches n (n + 1) ↔ a.SameState b) ∧
      (b.newMaterial = false ↔
        a.object.material = b.object.material ∧ a.object.shaderFlags = b.object.shaderFlags)
  first : ∀ c ∈ p.calls.head?, c.newMaterial = true
  together : ∀ m n a b, Batch.Together p.batches m n → p.calls[m]? = some a →
    p.calls[n]? = some b → a.SameState b ∧ a.variant = b.variant
  variant : ∀ c ∈ p.calls, after.get? (e.key materials lights pass c.object) = some c.variant
  kept : ∀ k v, cache.get? k = some v → after.get? k = some v

/-- The batches of a preparation are its longest runs of calls with the same state. -/
theorem batches_prepare (cache : VariantCache VariantKey) (is : List Instance) :
    e.Batches materials lights pass cache is (e.prepare materials cache is lights pass).1
      (e.prepare materials cache is lights pass).2 := by
  have hl := e.linked_prepare materials lights pass cache is
  have hcalls := e.objects_prepare materials lights pass cache is
  have hvariant : ∀ c ∈ (e.prepare materials cache is lights pass).1.calls,
      (e.prepare materials cache is lights pass).2.get? (e.key materials lights pass c.object) =
        some c.variant :=
    e.get?_of_mem_callsAfter materials lights pass is.zipIdx
  exact {
    calls := hcalls
    skipped := e.length_calls_prepare materials lights pass cache is
    tiles := PreparedDraws.tiles_batches _
    neighbours := fun n a b ha hb =>
      ⟨PreparedDraws.together_succ_iff hl ha hb, (hl.follows_succ ha hb).newMaterial_eq_false_iff⟩
    first := fun c hc => (hl.follows c hc).newMaterial_of_none
    together := fun m n a b h ha hb => by
      have hstate := PreparedDraws.sameState_of_together hl h ha hb
      have hkey := e.key_congr materials lights pass hstate.material hstate.shaderFlags
      have hsame := hvariant a (List.mem_of_getElem? ha)
      rw [hkey, hvariant b (List.mem_of_getElem? hb)] at hsame
      exact ⟨hstate, (Option.some.inj hsame).symm⟩
    variant := hvariant
    kept := fun k v h => e.get?_callsAfter materials lights pass h is.zipIdx }

end Environment

end ForwardShading
