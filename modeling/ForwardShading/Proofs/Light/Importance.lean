import ForwardShading.Proofs.Light.Dispatch

/-!
# Which lights are kept

Local lights are ranked by kind, then by priority, then by distance, then by their place in the layer
(`Light.Precedes`).  Where every distance is a number, sorting them by importance lists them in this
order (`Light.exists_ranked_byImportance`), so a dispatch that runs out of slots drops the lights at
the end of it (`Dispatcher.dispatchLocal_keepsFirst`).
-/

namespace ForwardShading

namespace Scalar

theorem lt_iff_rank {a b : Scalar} (ha : a.isNaN = false) (hb : b.isNaN = false) :
    a.lt b = true ↔ a.rank < b.rank := by
  simp [lt, ha, hb]

end Scalar

/-- The place of a kind in the order in which lights are written. -/
def LightKind.order : LightKind → Nat
  | directional => 0
  | omni => 1
  | spot => 2

namespace Light

/-- The squared distance to the camera. -/
def distance (camera : Vec3) (l : Light) : Scalar :=
  l.position.distanceSquared camera

/-- The order of lights, each with its place in the layer: by kind, then by descending priority, then
by ascending distance as a number, then by place. -/
def Precedes (camera : Vec3) (a b : Light × Nat) : Prop :=
  a.1.kind.order < b.1.kind.order ∨ a.1.kind.order = b.1.kind.order ∧
    (b.1.priority < a.1.priority ∨ b.1.priority = a.1.priority ∧
      ((a.1.distance camera).rank < (b.1.distance camera).rank ∨
        (a.1.distance camera).rank = (b.1.distance camera).rank ∧ a.2 < b.2))

instance (camera : Vec3) (a b : Light × Nat) : Decidable (Precedes camera a b) :=
  inferInstanceAs (Decidable (_ ∨ _))

section Precedes

variable {camera : Vec3} {a b c : Light × Nat}

theorem Precedes.trans (hab : Precedes camera a b) (hbc : Precedes camera b c) :
    Precedes camera a c := by
  unfold Precedes at *
  omega

theorem Precedes.asymm (h : Precedes camera a b) : ¬ Precedes camera b a := by
  unfold Precedes at *
  omega

theorem precedes_trichotomous (h : a.2 ≠ b.2) : Precedes camera a b ∨ Precedes camera b a := by
  unfold Precedes
  omega

/-- Among lights of one kind whose distances are numbers, the more important one of two precedes the
other, and where neither is, the one that comes first. -/
theorem precedes_iff_outranks (hkind : a.1.kind = b.1.kind)
    (ha : (a.1.distance camera).isNaN = false) (hb : (b.1.distance camera).isNaN = false)
    (hplace : a.2 < b.2) : Precedes camera a b ↔ ¬ b.1.outranks camera a.1 := by
  simp only [outranks, Bool.or_eq_true, decide_eq_true_eq, Bool.and_eq_true, beq_iff_eq]
  rw [← distance, ← distance, Scalar.lt_iff_rank hb ha]
  simp only [Precedes, hkind, Nat.lt_irrefl, false_or, true_and]
  omega

end Precedes

/-! ## Sorting by importance -/

/-- Lights of one kind whose distances are numbers. -/
def Comparable (camera : Vec3) (kind : LightKind) (l : Light × Nat) : Prop :=
  l.1.kind = kind ∧ (l.1.distance camera).isNaN = false

section Sorting

variable {camera : Vec3} {kind : LightKind}

/-- A light that comes behind all others of a list is put at its place among them.  The list is given
from its end. -/
theorem exists_ranked_settle {l : Light × Nat} {sorted : List (Light × Nat)}
    (hl : Comparable camera kind l) (hs : ∀ m ∈ sorted, Comparable camera kind m)
    (hplace : ∀ m ∈ sorted, m.2 < l.2) (hranked : sorted.Pairwise (flip (Precedes camera))) :
    ∃ ranked : List (Light × Nat), ranked.map Prod.fst = settle camera l.1 (sorted.map Prod.fst) ∧
      ranked.Perm (l :: sorted) ∧ ranked.Pairwise (flip (Precedes camera)) := by
  induction sorted with
  | nil => exact ⟨[l], rfl, .refl _, List.pairwise_singleton _ _⟩
  | cons m ms ih =>
    obtain ⟨hm, hms⟩ := List.forall_mem_cons.1 hs
    obtain ⟨hlast, hplaces⟩ := List.forall_mem_cons.1 hplace
    obtain ⟨hfirst, hrest⟩ := List.pairwise_cons.1 hranked
    have hiff := precedes_iff_outranks (hm.1.trans hl.1.symm) hm.2 hl.2 hlast
    rw [List.map_cons, settle]
    by_cases h : l.1.outranks camera m.1 = true
    · -- `l` goes somewhere in front of `m`, which stays the last one.
      obtain ⟨ranked, hmap, hperm, hpairwise⟩ := ih hms hplaces hrest
      have hlm : Precedes camera l m :=
        (precedes_trichotomous (Nat.ne_of_gt hlast)).resolve_right fun hml => hiff.1 hml h
      refine ⟨m :: ranked, ?_, (hperm.cons m).trans (.swap l m ms), ?_⟩
      · rw [if_pos h, List.map_cons, hmap]
      · refine List.pairwise_cons.2 ⟨fun x hx => ?_, hpairwise⟩
        rcases List.mem_cons.1 (hperm.mem_iff.1 hx) with rfl | hx
        · exact hlm
        · exact hfirst x hx
    · have hml : Precedes camera m l := hiff.2 h
      refine ⟨l :: m :: ms, ?_, .refl _, List.pairwise_cons.2 ⟨fun x hx => ?_, hranked⟩⟩
      · rw [if_neg h]
        rfl
      · rcases List.mem_cons.1 hx with rfl | hx
        · exact hml
        · exact (hfirst x hx).trans hml

theorem exists_ranked_foldl {ls sorted : List (Light × Nat)}
    (hl : ∀ l ∈ ls, Comparable camera kind l) (hs : ∀ m ∈ sorted, Comparable camera kind m)
    (hplaces : ls.Pairwise (·.2 < ·.2)) (hplace : ∀ l ∈ ls, ∀ m ∈ sorted, m.2 < l.2)
    (hranked : sorted.Pairwise (flip (Precedes camera))) :
    ∃ ranked : List (Light × Nat),
      ranked.map Prod.fst = (ls.map Prod.fst).foldl (fun sorted l => settle camera l sorted)
        (sorted.map Prod.fst) ∧
      ranked.Perm (ls ++ sorted) ∧ ranked.Pairwise (flip (Precedes camera)) := by
  induction ls generalizing sorted with
  | nil => exact ⟨sorted, rfl, .refl _, hranked⟩
  | cons l ls ih =>
    obtain ⟨hcomparable, hls⟩ := List.forall_mem_cons.1 hl
    obtain ⟨hbefore, hplaces⟩ := List.pairwise_cons.1 hplaces
    obtain ⟨hfirst, hrest⟩ := List.forall_mem_cons.1 hplace
    obtain ⟨settled, hmap, hperm, hsettled⟩ := exists_ranked_settle hcomparable hs hfirst hranked
    have hmem : ∀ m ∈ settled, m = l ∨ m ∈ sorted :=
      fun m hm => List.mem_cons.1 (hperm.mem_iff.1 hm)
    have hkinds : ∀ m ∈ settled, Comparable camera kind m :=
      fun m hm => (hmem m hm).elim (· ▸ hcomparable) (hs m)
    have hbehind : ∀ x ∈ ls, ∀ m ∈ settled, m.2 < x.2 :=
      fun x hx m hm => (hmem m hm).elim (· ▸ hbefore x hx) (hrest x hx m)
    obtain ⟨ranked, hranks, hall, hpairwise⟩ := ih hls hkinds hplaces hbehind hsettled
    refine ⟨ranked, ?_, ?_, hpairwise⟩
    · rw [hranks, hmap, List.map_cons, List.foldl_cons]
    · exact hall.trans ((hperm.append_left ls).trans List.perm_middle)

/-- Sorting by importance lists lights of one kind in the order in which they precede each other. -/
theorem exists_ranked_byImportance {ls : List (Light × Nat)}
    (hl : ∀ l ∈ ls, Comparable camera kind l) (hplaces : ls.Pairwise (·.2 < ·.2)) :
    ∃ ranked : List (Light × Nat),
      ranked.map Prod.fst = byImportance camera (ls.map Prod.fst) ∧ ranked.Perm ls ∧
        ranked.Pairwise (Precedes camera) := by
  have hnone : ∀ m ∈ ([] : List (Light × Nat)), Comparable camera kind m := by simp
  obtain ⟨ranked, hmap, hperm, hpairwise⟩ := exists_ranked_foldl hl hnone hplaces (by simp) .nil
  refine ⟨ranked.reverse, ?_, ?_, List.pairwise_reverse.2 hpairwise⟩
  · rw [List.map_reverse, hmap]
    rfl
  · simpa using (List.reverse_perm ranked).trans hperm

end Sorting

/-- The local lights of a layer that affect a mask, each with its place in the layer, in the order in
which they precede each other. -/
structure IsRanking (camera : Vec3) (mask : UInt32) (ls : List Light)
    (ranked : List (Light × Nat)) : Prop where
  perm : ranked.Perm (ls.zipIdx.filter fun l => l.1.isLocal && l.1.affects mask)
  ordered : ranked.Pairwise (Precedes camera)

theorem IsRanking.unique {camera : Vec3} {mask : UInt32} {ls : List Light}
    {r r' : List (Light × Nat)} (h : IsRanking camera mask ls r) (h' : IsRanking camera mask ls r') :
    r = r' :=
  (h.perm.trans h'.perm.symm).eq_of_pairwise (fun _ _ _ _ hab hba => absurd hba hab.asymm)
    h.ordered h'.ordered

end Light

namespace SortedLights

open Light

variable {camera : Vec3} {ls : List Light}

/-- The lights of a kind in the order in which they precede each other. -/
theorem exists_ranked_ofKind (h : ∀ l ∈ ls, l.isLocal → (l.distance camera).isNaN = false)
    {kind : LightKind} (hkind : kind ≠ .directional) :
    ∃ ranked : List (Light × Nat),
      ranked.map Prod.fst = byImportance camera (ls.filter (·.kind = kind)) ∧
        ranked.Perm (ls.zipIdx.filter (·.1.kind = kind)) ∧ ranked.Pairwise (Precedes camera) := by
  have hplaces : ls.zipIdx.Pairwise (·.2 < ·.2) := by
    have hindices : (ls.zipIdx.map Prod.snd).Pairwise (· < ·) := by
      rw [List.zipIdx_map_snd]
      exact List.pairwise_lt_range'
    exact List.pairwise_map.1 hindices
  have hmap : ls.filter (·.kind = kind) = (ls.zipIdx.filter (·.1.kind = kind)).map Prod.fst := by
    conv_lhs => rw [← List.zipIdx_map_fst 0 ls, List.filter_map]
    rfl
  rw [hmap]
  have hcomparable : ∀ l ∈ ls.zipIdx.filter (·.1.kind = kind), Comparable camera kind l := by
    intro l hl
    obtain ⟨hmem, hk⟩ := List.mem_filter.1 hl
    have hk : l.1.kind = kind := by simpa using hk
    refine ⟨hk, h l.1 (List.fst_mem_of_mem_zipIdx hmem) ?_⟩
    simpa [isLocal, hk] using hkind
  exact exists_ranked_byImportance hcomparable (hplaces.sublist List.filter_sublist)

/-- The local lights are those of both kinds. -/
theorem filter_isLocal_perm (ls : List (Light × Nat)) :
    (ls.filter (·.1.kind = .omni) ++ ls.filter (·.1.kind = .spot)).Perm
      (ls.filter (·.1.isLocal)) := by
  have homni : ls.filter (·.1.kind = .omni) =
      (ls.filter (·.1.isLocal)).filter (·.1.kind = .omni) := by
    rw [List.filter_filter]
    exact List.filter_congr fun l _ => by cases hk : l.1.kind <;> simp [isLocal, hk]
  have hspot : ls.filter (·.1.kind = .spot) =
      (ls.filter (·.1.isLocal)).filter (fun l => !decide (l.1.kind = .omni)) := by
    rw [List.filter_filter]
    exact List.filter_congr fun l _ => by cases hk : l.1.kind <;> simp [isLocal, hk]
  rw [homni, hspot]
  exact List.filter_append_perm _ _

theorem exists_isRanking (h : ∀ l ∈ ls, l.isLocal → (l.distance camera).isNaN = false)
    (mask : UInt32) : ∃ ranked, IsRanking camera mask ls ranked ∧
      ranked.map Prod.fst = (ofLights camera ls).locals.filter (·.affects mask) := by
  obtain ⟨omni, homni, pomni, romni⟩ :=
    exists_ranked_ofKind h (show LightKind.omni ≠ .directional by decide)
  obtain ⟨spot, hspot, pspot, rspot⟩ :=
    exists_ranked_ofKind h (show LightKind.spot ≠ .directional by decide)
  refine ⟨(omni ++ spot).filter (·.1.affects mask), ⟨?_, ?_⟩, ?_⟩
  · refine (((pomni.append pspot).trans (filter_isLocal_perm _)).filter _).trans (.of_eq ?_)
    rw [List.filter_filter]
    exact List.filter_congr fun l _ => Bool.and_comm _ _
  · refine (List.pairwise_append.2 ⟨romni, rspot, fun a ha b hb => .inl ?_⟩).sublist
      List.filter_sublist
    have hka : a.1.kind = .omni := by simpa using (List.mem_filter.1 (pomni.mem_iff.1 ha)).2
    have hkb : b.1.kind = .spot := by simpa using (List.mem_filter.1 (pspot.mem_iff.1 hb)).2
    rw [hka, hkb]
    decide
  · rw [locals, ofLights, ← homni, ← hspot, ← List.map_append, List.filter_map]
    rfl

end SortedLights

/-- Where the distances of the local lights are numbers, a dispatch writes as many lights as there are
slots for from the beginning of the one ranking of those that affect the mask, so that no light that it
drops precedes one that it keeps. -/
theorem Dispatcher.dispatchLocal_keepsFirst (d : Dispatcher) (position : Vec3) (ls : List Light)
    (h : ∀ l ∈ ls, l.isLocal → (l.distance position).isNaN = false) (mask : UInt32)
    (camera : Camera) (start : Nat) :
    (SortedLights.ofLights position ls).directional = ls.filter (·.kind = .directional) ∧
    ∃ ranked, (∀ r, Light.IsRanking position mask ls r ↔ r = ranked) ∧
      (d.dispatchLocal (.ofLights position ls) mask camera start).WroteFrom d start
        ((ranked.take (d.maxSlots - start)).map
          fun l => Slot.ofLight d.shadows d.cookies l.1) ∧
      ∀ kept ∈ ranked.take (d.maxSlots - start), ∀ dropped ∈ ranked.drop (d.maxSlots - start),
        Light.Precedes position kept dropped ∧ ¬ Light.Precedes position dropped kept := by
  obtain ⟨ranked, hranking, hlights⟩ := SortedLights.exists_isRanking h mask
  refine ⟨rfl, ranked, fun r => ⟨fun hr => hr.unique hranking, fun hr => hr ▸ hranking⟩, ?_, ?_⟩
  · rw [dispatchLocal, ← hlights, List.map_map, List.map_take]
    exact d.wroteFrom_dispatch start _
  · intro kept hkept dropped hdropped
    have hordered := hranking.ordered
    rw [← List.take_append_drop (d.maxSlots - start) ranked] at hordered
    have hprecedes := (List.pairwise_append.1 hordered).2.2 kept hkept dropped hdropped
    exact ⟨hprecedes, hprecedes.asymm⟩

/-- Three slots for five lights: a near light comes before a far one but behind one of a higher
priority, of two at the same distance the first is kept, and spot lights come last. -/
theorem Dispatcher.dispatchLocal_keepsFirst_crowded :
    let lamp (kind : LightKind) (mask : UInt32) (priority : Int) (x : Scalar) : Light :=
      { kind, mask, priority, transform := { Mat4.identity with w := ⟨x, 0, 0, 1⟩ } }
    let ls := [lamp .spot 1 9 1, lamp .omni 2 9 1, lamp .omni 1 0 5, lamp .directional 1 0 0,
      lamp .omni 1 0 (-5), lamp .omni 1 1 100, lamp .omni 1 0 2]
    let d := Dispatcher.ofSlots 4 true true
    (∀ l ∈ ls, l.isLocal → (l.distance .zero).isNaN = false) ∧
      (d.dispatchLocal (.ofLights .zero ls) 1 {} 1).WroteFrom d 1
        ([lamp .omni 1 1 100, lamp .omni 1 0 2, lamp .omni 1 0 5].map
          (Slot.ofLight true true)) := by
  intro lamp ls d
  have hnumbers : ∀ l ∈ ls, l.isLocal → (l.distance .zero).isNaN = false := by decide +kernel
  obtain ⟨-, ranked, hranked, hwrote, -⟩ :=
    d.dispatchLocal_keepsFirst .zero ls hnumbers 1 {} 1
  have hranking : Light.IsRanking .zero 1 ls [(lamp .omni 1 1 100, 5), (lamp .omni 1 0 2, 6),
      (lamp .omni 1 0 5, 2), (lamp .omni 1 0 (-5), 4), (lamp .spot 1 9 1, 0)] :=
    ⟨by decide +kernel, by decide +kernel⟩
  rw [← (hranked _).1 hranking] at hwrote
  exact ⟨hnumbers, hwrote⟩

end ForwardShading
