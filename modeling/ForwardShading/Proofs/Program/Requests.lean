import ForwardShading.Proofs.Program.VariantCache
import Mathlib.Data.List.Dedup

/-!
# Requests to a variant cache

What a sequence of requests finds in a cache that begins empty.  The first request that may build the
variant of a key decides it: every answer for the key is that variant, whatever later requests bring as
a description (`VariantCache.Served.serve`).  A description is computed on such a first request only,
which shows where computing one leaves a trace (`VariantCache.Served.run_serveTraced`).
-/

namespace ForwardShading

namespace VariantCache

variable {κ : Type} [DecidableEq κ]

/-- What is asked of a cache. -/
inductive Request (κ : Type)
  /-- Asks for the variant of a key, to be built from a description where there is none. -/
  | getOrBuild (key : κ) (described : Definition × Surroundings)
  | get (key : κ)

/-- Answers a request. -/
def serve (c : VariantCache κ) : Request κ → Option (Variant κ) × VariantCache κ
  | .getOrBuild key described => (c.getOrBuild key fun _ => described).map some id
  | .get key => (c.get? key, c)

/-- Answers requests in order, each from the cache that the one before has left. -/
def serveAll (c : VariantCache κ) : List (Request κ) → List (Option (Variant κ)) × VariantCache κ
  | [] => ([], c)
  | r :: rs =>
    let (answer, c) := c.serve r
    (c.serveAll rs).map (answer :: ·) id

/-! ## Descriptions that leave a trace -/

/-- `getOrBuild` with a description that is computed by a program with effects. -/
def getOrBuildM {m : Type → Type} [Monad m] (c : VariantCache κ) (k : κ)
    (describe : m (Definition × Surroundings)) : m (Variant κ × VariantCache κ) :=
  match c.get? k with
  | some v => pure (v, c)
  | none => do
    let v := build c.dialect k (← describe)
    return (v, { c with variants := c.variants ++ [v], builds := c.builds + 1 })

theorem getOrBuildM_id (c : VariantCache κ) (k : κ) (describe : Unit → Definition × Surroundings) :
    Id.run (c.getOrBuildM k (pure (describe ()))) = c.getOrBuild k describe := by
  unfold getOrBuildM getOrBuild
  cases c.get? k <;> rfl

/-- Answers a request. Computing its description appends its number to the trace. -/
def serveTraced (c : VariantCache κ) (number : Nat) :
    Request κ → StateM (List Nat) (Option (Variant κ) × VariantCache κ)
  | .getOrBuild key described =>
    (·.map some id) <$> c.getOrBuildM key do
      modify (· ++ [number])
      return described
  | .get key => return (c.get? key, c)

/-- Answers requests in order, the first of which has the given number. -/
def serveAllTraced (c : VariantCache κ) (number : Nat) :
    List (Request κ) → StateM (List Nat) (List (Option (Variant κ)) × VariantCache κ)
  | [] => return ([], c)
  | r :: rs => do
    let (answer, c) ← c.serveTraced number r
    (·.map (answer :: ·) id) <$> c.serveAllTraced (number + 1) rs

theorem run_serveTraced_getOrBuild (c : VariantCache κ) (number : Nat) (key : κ)
    (described : Definition × Surroundings) (trace : List Nat) :
    (c.serveTraced number (.getOrBuild key described)).run trace =
      (c.serve (.getOrBuild key described),
        trace ++ if (c.get? key).isNone then [number] else []) := by
  obtain ⟨v, hget, hserve⟩ | ⟨hget, hserve⟩ := c.getOrBuild_cases key fun _ => described
  · rw [serve, hserve, serveTraced, getOrBuildM, hget]
    exact Prod.ext rfl (List.append_nil trace).symm
  · rw [serve, hserve, serveTraced, getOrBuildM, hget]
    rfl

theorem run_serveAllTraced_cons (c : VariantCache κ) (number : Nat) (r : Request κ)
    (rs : List (Request κ)) (trace : List Nat) :
    (c.serveAllTraced number (r :: rs)).run trace =
      let x := (c.serveTraced number r).run trace
      ((x.1.2.serveAllTraced (number + 1) rs).run x.2).map (·.map (x.1.1 :: ·) id) id :=
  rfl

/-! ## First requests -/

namespace Request

/-- The description that a sequence of requests brings first for a key. -/
def first? (k : κ) (rs : List (Request κ)) : Option (Definition × Surroundings) :=
  rs.findSome? fun
    | getOrBuild key described => if key = k then some described else none
    | get _ => none

/-- The keys that a sequence of requests asks to build. -/
def builtKeys (rs : List (Request κ)) : List κ :=
  rs.filterMap fun
    | getOrBuild key _ => some key
    | get _ => none

/-- The answer to a request behind others: the variant of the description that was first for its key,
which may be its own. -/
def answer (dialect : Dialect) (past : List (Request κ)) : Request κ → Option (Variant κ)
  | getOrBuild key described => some (build dialect key ((first? key past).getD described))
  | get key => (first? key past).map (build dialect key)

/-- Whether a request behind others is the first that asks to build its key. -/
def isFirst (past : List (Request κ)) : Request κ → Bool
  | getOrBuild key _ => (first? key past).isNone
  | get _ => false

theorem first?_append (k : κ) (past rs : List (Request κ)) :
    first? k (past ++ rs) = (first? k past).or (first? k rs) :=
  List.findSome?_append

theorem isSome_first? {k : κ} {rs : List (Request κ)} : (first? k rs).isSome ↔ k ∈ builtKeys rs := by
  unfold first? builtKeys
  rw [List.findSome?_isSome_iff, List.mem_filterMap]
  refine exists_congr fun r => and_congr_right fun _ => ?_
  cases r with
  | getOrBuild key described => by_cases h : key = k <;> simp [h]
  | get key => simp

/-- The numbers of the requests that are first for their key, counted from `number`. -/
def firstNumbers (past : List (Request κ)) (number : Nat) (rs : List (Request κ)) : List Nat :=
  ((List.range rs.length).filter fun i => rs[i]?.any (·.isFirst (past ++ rs.take i))).map (number + ·)

theorem firstNumbers_cons (past : List (Request κ)) (number : Nat) (r : Request κ)
    (rs : List (Request κ)) :
    firstNumbers past number (r :: rs) =
      (if r.isFirst past then [number] else []) ++ firstNumbers (past ++ [r]) (number + 1) rs := by
  have htail : ((List.range rs.length).map Nat.succ).filter
      (fun i => (r :: rs)[i]?.any (·.isFirst (past ++ (r :: rs).take i))) =
      ((List.range rs.length).filter
        fun i => rs[i]?.any (·.isFirst (past ++ [r] ++ rs.take i))).map Nat.succ := by
    rw [List.filter_map]
    refine congrArg _ (List.filter_congr fun i _ => ?_)
    simp
  have hnumbers : ∀ is : List Nat, (is.map Nat.succ).map (number + ·) = is.map (number + 1 + ·) := by
    intro is
    rw [List.map_map]
    refine List.map_congr_left fun i _ => ?_
    rw [Function.comp_apply, Nat.succ_eq_add_one]
    omega
  rw [firstNumbers, List.length_cons, List.range_succ_eq_map, List.filter_cons, htail]
  cases h : r.isFirst past <;> simp [h, hnumbers, firstNumbers]

end Request

open Request

/-! ## What a cache holds -/

section Lookup

theorem isSome_get? {c : VariantCache κ} {k : κ} :
    (c.get? k).isSome ↔ k ∈ c.variants.map (·.key) := by
  simp [get?, List.find?_isSome]

theorem get?_concat (c : VariantCache κ) (v : Variant κ) (builds : Nat) (k : κ) :
    VariantCache.get? ⟨c.dialect, c.variants ++ [v], builds⟩ k =
      (c.get? k).or (if v.key = k then some v else none) := by
  unfold get?
  rw [List.find?_append]
  by_cases h : v.key = k <;> simp [h]

end Lookup

/-- A cache as it is when it began empty and has answered the given requests. -/
structure Served (dialect : Dialect) (past : List (Request κ)) (c : VariantCache κ) : Prop where
  dialect_eq : c.dialect = dialect
  get?_eq : ∀ k, c.get? k = (first? k past).map (build dialect k)
  nodup : (c.variants.map (·.key)).Nodup
  builds_eq : c.builds = c.size

theorem served_empty (dialect : Dialect) : Served dialect [] (empty dialect : VariantCache κ) where
  dialect_eq := rfl
  get?_eq _ := rfl
  nodup := .nil
  builds_eq := rfl

namespace Served

variable {dialect : Dialect} {past : List (Request κ)} {c : VariantCache κ}

/-- There are as many variants as keys that were to be built. -/
theorem size_eq (h : Served dialect past c) : c.size = (builtKeys past).dedup.length := by
  rw [size, ← List.length_map (·.key)]
  refine ((List.perm_ext_iff_of_nodup h.nodup (List.nodup_dedup _)).2 fun k => ?_).length_eq
  rw [← isSome_get?, h.get?_eq, Option.isSome_map, isSome_first?, List.mem_dedup]

/-- A request that is not the first for its key leaves the cache as it is. -/
theorem concat_of_not_isFirst (h : Served dialect past c) {r : Request κ}
    (hr : r.isFirst past = false) : Served dialect (past ++ [r]) c where
  dialect_eq := h.dialect_eq
  get?_eq k := by
    rw [h.get?_eq, first?_append]
    cases r with
    | get key => simp [first?]
    | getOrBuild key described =>
      by_cases hk : key = k
      · subst hk
        obtain ⟨d, hd⟩ := Option.isSome_iff_exists.1 (Option.isNone_eq_false_iff.1 hr)
        rw [hd, Option.some_or]
      · simp [first?, hk]
  nodup := h.nodup
  builds_eq := h.builds_eq

/-- The first request for a key adds the variant of its description. -/
theorem concat_of_isFirst (h : Served dialect past c) {key : κ}
    {described : Definition × Surroundings} (hk : first? key past = none) :
    Served dialect (past ++ [.getOrBuild key described])
      { c with variants := c.variants ++ [build c.dialect key described], builds := c.builds + 1 } where
  dialect_eq := h.dialect_eq
  get?_eq k := by
    rw [get?_concat, first?_append, h.get?_eq, h.dialect_eq, Option.map_or]
    by_cases hkey : key = k <;> simp [first?, build, hkey]
  nodup := by
    have hnew : key ∉ c.variants.map (·.key) := by
      rw [← isSome_get?, h.get?_eq, hk]
      exact Bool.false_ne_true
    rw [List.map_append]
    exact h.nodup.append (List.nodup_singleton _) (List.disjoint_singleton.2 hnew)
  builds_eq := by
    simp [size, h.builds_eq]

/-- A request is answered by the variant that was first for its key. -/
theorem serve (h : Served dialect past c) (r : Request κ) :
    (c.serve r).1 = r.answer dialect past ∧ Served dialect (past ++ [r]) (c.serve r).2 := by
  cases r with
  | get key => exact ⟨h.get?_eq key, h.concat_of_not_isFirst rfl⟩
  | getOrBuild key described =>
    have hkey := h.get?_eq key
    rw [VariantCache.serve]
    obtain ⟨v, hget, hserve⟩ | ⟨hget, hserve⟩ := c.getOrBuild_cases key fun _ => described
    · rw [hget] at hkey
      obtain ⟨d, hd, hv⟩ := Option.map_eq_some_iff.1 hkey.symm
      rw [hserve]
      refine ⟨?_, h.concat_of_not_isFirst (by rw [isFirst, hd]; rfl)⟩
      rw [answer, hd, Option.getD_some, hv]
      rfl
    · rw [hget] at hkey
      have hnone := Option.map_eq_none_iff.1 hkey.symm
      rw [hserve]
      refine ⟨?_, h.concat_of_isFirst hnone⟩
      rw [answer, hnone, Option.getD_none, ← h.dialect_eq]
      rfl

/-- The description of a request is computed exactly if the request is the first for its key. -/
theorem run_serveTraced (h : Served dialect past c) (number : Nat) (r : Request κ)
    (trace : List Nat) :
    (c.serveTraced number r).run trace =
      (c.serve r, trace ++ if r.isFirst past then [number] else []) := by
  cases r with
  | get key => exact Prod.ext rfl (List.append_nil trace).symm
  | getOrBuild key described =>
    rw [run_serveTraced_getOrBuild, h.get?_eq, Option.isNone_map, isFirst]

theorem serveAll (h : Served dialect past c) (rs : List (Request κ)) :
    (c.serveAll rs).1 = rs.mapIdx (fun i r => r.answer dialect (past ++ rs.take i)) ∧
      Served dialect (past ++ rs) (c.serveAll rs).2 := by
  induction rs generalizing past c with
  | nil => exact ⟨rfl, by rwa [List.append_nil]⟩
  | cons r rs ih =>
    obtain ⟨hanswer, hserved⟩ := h.serve r
    obtain ⟨hanswers, hrest⟩ := ih hserved
    refine ⟨(congrArg ((c.serve r).1 :: ·) hanswers).trans ?_, by rwa [List.append_cons]⟩
    simp [List.mapIdx_cons, hanswer]

theorem run_serveAllTraced (h : Served dialect past c) (number : Nat) (rs : List (Request κ))
    (trace : List Nat) :
    (c.serveAllTraced number rs).run trace =
      (c.serveAll rs, trace ++ firstNumbers past number rs) := by
  induction rs generalizing past c number trace with
  | nil => exact Prod.ext rfl (List.append_nil trace).symm
  | cons r rs ih =>
    rw [run_serveAllTraced_cons, h.run_serveTraced]
    simp only [ih (h.serve r).2]
    rw [firstNumbers_cons, ← List.append_assoc]
    rfl

end Served

/-- A cache that begins empty answers every request with the variant that was first for its key, also
where that one failed; it computes the descriptions of these first requests and no others, and has at
the end one variant, built once, for every key that was to be built. -/
theorem serveAll_empty (dialect : Dialect) (rs : List (Request κ)) :
    let served := (empty dialect).serveAll rs
    served.1 = rs.mapIdx (fun i r => r.answer dialect (rs.take i)) ∧
      ((empty dialect).serveAllTraced 0 rs).run [] =
        (served, (List.range rs.length).filter fun i => rs[i]?.any (·.isFirst (rs.take i))) ∧
      (∀ k, served.2.get? k = (first? k rs).map (build dialect k) ∧
        ((served.2.get? k).isSome ↔ k ∈ builtKeys rs)) ∧
      served.2.builds = (builtKeys rs).dedup.length ∧
      served.2.size = (builtKeys rs).dedup.length := by
  have hempty : Served dialect [] (empty dialect : VariantCache κ) := served_empty dialect
  obtain ⟨hanswers, hserved⟩ := hempty.serveAll rs
  rw [List.nil_append] at hserved
  refine ⟨hanswers, ?_, fun k => ⟨hserved.get?_eq k, ?_⟩, hserved.builds_eq.trans hserved.size_eq,
    hserved.size_eq⟩
  · simpa [firstNumbers] using hempty.run_serveAllTraced 0 rs []
  · rw [hserved.get?_eq, Option.isSome_map, isSome_first?]

end VariantCache

end ForwardShading
