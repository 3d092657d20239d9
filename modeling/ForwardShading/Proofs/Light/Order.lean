import ForwardShading.Light.Order
import Mathlib.Data.List.Basic

/-!
# The lights of a layer

Sorting lights by importance neither loses nor adds one (`Light.byImportance_perm`), so each list of
`SortedLights.ofLights` holds lights of its own kind.  That makes the numbers of lights of each kind
readable from the fingerprint that programs are kept under (`SortedLights.length_eq_of_fingerprint`,
`SortedLights.allToldApart_byKind`).
Together the lists hold the lights of the layer (`SortedLights.all_ofLights_perm`).
-/

namespace ForwardShading

namespace Light

theorem settle_perm (camera : Vec3) (l : Light) (ls : List Light) :
    (l.settle camera ls).Perm (l :: ls) := by
  induction ls with
  | nil => exact .refl _
  | cons m ms ih =>
    unfold settle
    split
    · exact (ih.cons m).trans (.swap l m ms)
    · exact .refl _

theorem foldl_settle_perm (camera : Vec3) (ls sorted : List Light) :
    (ls.foldl (fun sorted l => l.settle camera sorted) sorted).Perm (ls ++ sorted) := by
  induction ls generalizing sorted with
  | nil => exact .refl _
  | cons l ls ih =>
    rw [List.foldl_cons]
    exact (ih _).trans (((l.settle_perm camera sorted).append_left ls).trans List.perm_middle)

theorem byImportance_perm (camera : Vec3) (ls : List Light) :
    (byImportance camera ls).Perm ls := by
  unfold byImportance
  refine (List.reverse_perm _).trans ?_
  simpa only [List.append_nil] using foldl_settle_perm camera ls []

end Light

namespace SortedLights

/-- Each list holds lights of its own kind. -/
structure ByKind (s : SortedLights) : Prop where
  directional : ∀ l ∈ s.directional, l.kind = .directional
  omni : ∀ l ∈ s.omni, l.kind = .omni
  spot : ∀ l ∈ s.spot, l.kind = .spot

theorem kind_of_mem_byImportance {camera : Vec3} {ls : List Light} {k : LightKind} {l : Light}
    (h : l ∈ Light.byImportance camera (ls.filter (·.kind = k))) : l.kind = k := by
  have hl := (Light.byImportance_perm camera _).mem_iff.1 h
  simpa using (List.mem_filter.1 hl).2

theorem byKind_ofLights (camera : Vec3) (ls : List Light) : (ofLights camera ls).ByKind where
  directional l h := by simpa using (List.mem_filter.1 h).2
  omni _ h := kind_of_mem_byImportance h
  spot _ h := kind_of_mem_byImportance h

/-- All lights, directional ones first, then omni lights, then spot lights. -/
def all (s : SortedLights) : List Light :=
  s.directional ++ s.locals

/-- The numbers of lights of each kind. -/
def counts (s : SortedLights) : Nat × Nat × Nat :=
  (s.directional.length, s.omni.length, s.spot.length)

theorem length_all (s : SortedLights) :
    s.all.length = s.counts.1 + (s.counts.2.1 + s.counts.2.2) := by
  rw [all, locals, List.length_append, List.length_append]
  rfl

theorem filter_kinds_perm (ls : List Light) :
    (ls.filter (·.kind = .directional) ++
      (ls.filter (·.kind = .omni) ++ ls.filter (·.kind = .spot))).Perm ls := by
  induction ls with
  | nil => exact .refl _
  | cons l ls ih =>
    cases h : l.kind with
    | directional =>
      simp only [List.filter_cons, h, decide_true, reduceCtorEq, decide_false, if_true,
        Bool.false_eq_true, if_false, List.cons_append]
      exact ih.cons l
    | omni =>
      simp only [List.filter_cons, h, decide_true, reduceCtorEq, decide_false, if_true,
        Bool.false_eq_true, if_false, List.cons_append]
      exact List.perm_middle.trans (ih.cons l)
    | spot =>
      simp only [List.filter_cons, h, decide_true, reduceCtorEq, decide_false, if_true,
        Bool.false_eq_true, if_false]
      rw [← List.append_assoc]
      refine List.perm_middle.trans ((?_ : List.Perm _ ls).cons l)
      rwa [List.append_assoc]

theorem all_ofLights_perm (camera : Vec3) (ls : List Light) : (ofLights camera ls).all.Perm ls := by
  refine List.Perm.trans ?_ (filter_kinds_perm ls)
  refine List.Perm.append_left _ ?_
  exact (Light.byImportance_perm camera _).append (Light.byImportance_perm camera _)

/-- The number of fingerprints of a kind. -/
def countOf (k : LightKind) (fs : List LightFingerprint) : Nat :=
  fs.countP (·.kind = k)

@[simp]
theorem countOf_append (k : LightKind) (as bs : List LightFingerprint) :
    countOf k (as ++ bs) = countOf k as + countOf k bs :=
  List.countP_append

theorem countOf_self {k : LightKind} {ls : List Light} (h : ∀ l ∈ ls, l.kind = k) :
    countOf k (ls.map (·.fingerprint)) = ls.length := by
  rw [countOf, List.countP_map, List.countP_eq_length]
  intro l hl
  simpa [Light.fingerprint] using h l hl

theorem countOf_other {j k : LightKind} {ls : List Light} (h : ∀ l ∈ ls, l.kind = j)
    (hj : j ≠ k) : countOf k (ls.map (·.fingerprint)) = 0 := by
  rw [countOf, List.countP_map, List.countP_eq_zero]
  intro l hl
  simpa [Light.fingerprint, h l hl] using hj

section Fingerprint

variable {s t : SortedLights}

theorem ByKind.countOf_directional (h : s.ByKind) :
    countOf .directional (s.fingerprint false) = s.directional.length := by
  simp only [fingerprint, locals, Bool.false_eq_true, if_false, List.map_append, countOf_append,
    countOf_self h.directional, countOf_other h.omni (k := .directional) (by decide),
    countOf_other h.spot (k := .directional) (by decide)]
  rfl

theorem ByKind.countOf_omni (h : s.ByKind) :
    countOf .omni (s.fingerprint false) = s.omni.length := by
  simp only [fingerprint, locals, Bool.false_eq_true, if_false, List.map_append, countOf_append,
    countOf_self h.omni, countOf_other h.directional (k := .omni) (by decide),
    countOf_other h.spot (k := .omni) (by decide)]
  omega

theorem ByKind.countOf_spot (h : s.ByKind) :
    countOf .spot (s.fingerprint false) = s.spot.length := by
  simp only [fingerprint, locals, Bool.false_eq_true, if_false, List.map_append, countOf_append,
    countOf_self h.spot, countOf_other h.directional (k := .spot) (by decide),
    countOf_other h.omni (k := .spot) (by decide)]
  omega

theorem directional_length_eq_of_fingerprint (h : s.fingerprint true = t.fingerprint true) :
    s.directional.length = t.directional.length := by
  simpa [fingerprint] using congrArg List.length h

/-- Without clustered lighting the fingerprint tells the number of lights of every kind. -/
theorem length_eq_of_fingerprint (hs : s.ByKind) (ht : t.ByKind)
    (h : s.fingerprint false = t.fingerprint false) :
    s.directional.length = t.directional.length ∧ s.omni.length = t.omni.length ∧
      s.spot.length = t.spot.length := by
  refine ⟨?_, ?_, ?_⟩
  · rw [← hs.countOf_directional, ← ht.countOf_directional, h]
  · rw [← hs.countOf_omni, ← ht.countOf_omni, h]
  · rw [← hs.countOf_spot, ← ht.countOf_spot, h]

/-- Holds of light sets that are told apart by their fingerprints as far as the numbers of their lights
of each kind go. -/
def ToldApart (s t : SortedLights) : Prop :=
  s.fingerprint false = t.fingerprint false → s.counts = t.counts

theorem ByKind.toldApart (hs : s.ByKind) (ht : t.ByKind) : s.ToldApart t := by
  intro h
  obtain ⟨hdirectional, homni, hspot⟩ := length_eq_of_fingerprint hs ht h
  rw [counts, counts, hdirectional, homni, hspot]

/-- Holds of a family of light sets any two of which are told apart. -/
def AllToldApart (family : SortedLights → Prop) : Prop :=
  ∀ s t, family s → family t → s.ToldApart t

theorem allToldApart_byKind : AllToldApart ByKind :=
  fun _ _ => ByKind.toldApart

end Fingerprint

end SortedLights

end ForwardShading
