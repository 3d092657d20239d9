import ForwardShading.Proofs.Checked
import ForwardShading.Proofs.Keys

/-!
# First faults

A check walks a list and stops at the first entry that is at fault, which may depend on the entries
in front of it.  What such a check finds is said by the list alone, without the state that the walk
keeps (`FirstFault`): a computation that reports first faults (`Reports`) fails with nothing else, and
succeeds where nothing is at fault (`Reports.exists_ok`).  Checks made one behind the other are a list
of checks, of which the first that finds something is heard (`FirstOf`).
-/

namespace ForwardShading

variable {ε α β γ : Type}

/-- Holds of a list none of whose entries is at fault.  `fault before x e` says that `x`, with
`before` in front of it, is at fault in the way `e`. -/
def Faultless (fault : List α → α → ε → Prop) (xs : List α) : Prop :=
  ∀ before x after, xs = before ++ x :: after → ∀ e, ¬ fault before x e

/-- Holds of the fault of the first entry that is at fault. -/
def FirstFault (fault : List α → α → ε → Prop) (xs : List α) (e : ε) : Prop :=
  ∃ before x after, xs = before ++ x :: after ∧ Faultless fault before ∧ fault before x e

section

variable {fault : List α → α → ε → Prop} {x : α} {xs : List α} {e : ε}

theorem faultless_nil : Faultless fault [] := by
  intro before x after h
  cases before <;> cases h

/-- Behind an entry that is not at fault, the walk goes on with that entry in front. -/
theorem faultless_cons :
    Faultless fault (x :: xs) ↔
      (∀ e, ¬ fault [] x e) ∧ Faultless (fun before => fault (x :: before)) xs := by
  constructor
  · intro h
    refine ⟨h [] x xs rfl, fun before y after hxs => h (x :: before) y after ?_⟩
    rw [hxs, List.cons_append]
  · rintro ⟨hx, hxs⟩ before y after h
    rcases List.cons_eq_append_iff.1 h with ⟨rfl, hy⟩ | ⟨before', rfl, hafter⟩
    · cases hy
      exact hx
    · exact hxs before' y after hafter

theorem not_firstFault_nil : ¬ FirstFault fault [] e := by
  rintro ⟨before, x, after, h, -⟩
  cases before <;> cases h

theorem firstFault_cons :
    FirstFault fault (x :: xs) e ↔
      fault [] x e ∨
        (∀ e, ¬ fault [] x e) ∧ FirstFault (fun before => fault (x :: before)) xs e := by
  constructor
  · rintro ⟨before, y, after, h, hbefore, hfault⟩
    rcases List.cons_eq_append_iff.1 h with ⟨rfl, hy⟩ | ⟨before', rfl, hafter⟩
    · cases hy
      exact .inl hfault
    · obtain ⟨hx, hbefore⟩ := faultless_cons.1 hbefore
      exact .inr ⟨hx, before', y, after, hafter, hbefore, hfault⟩
  · rintro (hfault | ⟨hx, before, y, after, rfl, hbefore, hfault⟩)
    · exact ⟨[], x, xs, rfl, faultless_nil, hfault⟩
    · exact ⟨x :: before, y, after, rfl, faultless_cons.2 ⟨hx, hbefore⟩, hfault⟩

theorem faultless_iff : Faultless fault xs ↔ ∀ e, ¬ FirstFault fault xs e := by
  induction xs generalizing fault with
  | nil => exact iff_of_true faultless_nil fun e => not_firstFault_nil
  | cons x xs ih =>
    simp only [faultless_cons, firstFault_cons, ih, not_or, not_and]
    exact ⟨fun h e => ⟨h.1 e, fun _ => h.2 e⟩, fun h => ⟨fun e => (h e).1,
      fun e => (h e).2 fun e => (h e).1⟩⟩

/-- An entry is at fault by itself or against one in front of it. -/
theorem faultless_iff_pairwise {P : α → Prop} {R : α → α → Prop}
    (h : ∀ before x, (∀ e, ¬ fault before x e) ↔ P x ∧ ∀ y ∈ before, R y x) :
    Faultless fault xs ↔ (∀ x ∈ xs, P x) ∧ xs.Pairwise R := by
  induction xs generalizing fault P with
  | nil => exact iff_of_true faultless_nil ⟨by simp, .nil⟩
  | cons x xs ih =>
    have hshift : ∀ before y, (∀ e, ¬ fault (x :: before) y e) ↔
        (P y ∧ R x y) ∧ ∀ z ∈ before, R z y := by
      intro before y
      rw [h, List.forall_mem_cons, and_assoc]
    rw [faultless_cons, h, ih hshift, List.forall_mem_cons, List.pairwise_cons]
    constructor
    · rintro ⟨⟨hx, -⟩, hxs, hpairs⟩
      exact ⟨⟨hx, fun y hy => (hxs y hy).1⟩, fun y hy => (hxs y hy).2, hpairs⟩
    · rintro ⟨⟨hx, hxs⟩, hfirst, hpairs⟩
      exact ⟨⟨hx, by simp⟩, fun y hy => ⟨hxs y hy, hfirst y hy⟩, hpairs⟩

theorem faultless_iff_forall {fault : α → ε → Prop} :
    Faultless (fun _ => fault) xs ↔ ∀ x ∈ xs, ∀ e, ¬ fault x e := by
  rw [faultless_iff_pairwise (P := fun x => ∀ e, ¬ fault x e) (R := fun _ _ => True) fun _ _ => by simp]
  exact and_iff_left (List.pairwise_of_forall fun _ _ => trivial)

end

/-- Two walks that agree entry by entry find the same, up to how it is told. -/
theorem firstFault_iff_of_forall₂ {ε' : Type} {S : α → β → Prop} {fault : List α → α → ε → Prop}
    {fault' : List β → β → ε' → Prop} {tell : ε' → ε} {xs : List α} {ys : List β}
    (h : ∀ {before before' x y}, List.Forall₂ S before before' → S x y →
      ∀ e, fault before x e ↔ ∃ e', fault' before' y e' ∧ tell e' = e)
    (hxs : List.Forall₂ S xs ys) (e : ε) :
    FirstFault fault xs e ↔ ∃ e', FirstFault fault' ys e' ∧ tell e' = e := by
  induction hxs generalizing fault fault' with
  | nil => exact iff_of_false not_firstFault_nil fun ⟨e', he', _⟩ => not_firstFault_nil he'
  | @cons x y xs ys hx hxs ih =>
    have hnone : (∀ e, ¬ fault [] x e) ↔ ∀ e', ¬ fault' [] y e' := by
      constructor
      · exact fun hnone e' he' => hnone (tell e') ((h .nil hx _).2 ⟨e', he', rfl⟩)
      · intro hnone e he
        obtain ⟨e', he', -⟩ := (h .nil hx e).1 he
        exact hnone e' he'
    have hrest : FirstFault (fun before => fault (x :: before)) xs e ↔
        ∃ e', FirstFault (fun before => fault' (y :: before)) ys e' ∧ tell e' = e :=
      ih fun hbefore hx' => h (.cons hx hbefore) hx'
    rw [firstFault_cons, h .nil hx e, hnone, hrest]
    simp only [firstFault_cons, or_and_right, exists_or, and_assoc, exists_and_left]

/-! ## Computations that report first faults -/

/-- Holds of a computation that fails with the first fault of a list, and with nothing else. -/
def Reports (fault : List α → α → ε → Prop) (xs : List α) (r : Except ε β) : Prop :=
  ∀ e, r = .error e ↔ FirstFault fault xs e

section

variable {fault : List α → α → ε → Prop} {x : α} {xs : List α} {r : Except ε β}

theorem Reports.exists_ok (h : Reports fault xs r) : (∃ b, r = .ok b) ↔ Faultless fault xs := by
  rw [faultless_iff]
  cases r with
  | ok b => exact iff_of_true ⟨b, rfl⟩ fun e he => nomatch (h e).2 he
  | error e =>
    refine iff_of_false (fun ⟨b, hb⟩ => by cases hb) fun hnone => ?_
    exact hnone e ((h e).1 rfl)

theorem reports_nil (b : β) : Reports fault [] (.ok b : Except ε β) :=
  fun _ => iff_of_false nofun not_firstFault_nil

/-- A walk ends at an entry that is at fault. -/
theorem reports_of_fault {e : ε} (h : ∀ e', fault [] x e' ↔ e' = e) :
    Reports fault (x :: xs) (.error e : Except ε β) := by
  intro e'
  rw [firstFault_cons, h, Except.error.injEq, eq_comm]
  refine ⟨.inl, fun h' => h'.elim id fun h' => ?_⟩
  exact absurd ((h e).2 rfl) (h'.1 e)

theorem Reports.cons (hx : ∀ e, ¬ fault [] x e)
    (h : Reports (fun before => fault (x :: before)) xs r) : Reports fault (x :: xs) r := by
  intro e
  rw [firstFault_cons, h e]
  exact ⟨fun h' => .inr ⟨hx, h'⟩, fun h' => h'.elim (fun h' => absurd h' (hx e)) And.right⟩

theorem Reports.map (h : Reports fault xs r) (f : β → γ) : Reports fault xs (f <$> r) := by
  intro e
  rw [← h e]
  cases r with
  | error e' =>
    show (Except.error e' : Except ε γ) = .error e ↔ _
    rw [Except.error.injEq, Except.error.injEq]
  | ok b => exact iff_of_false nofun nofun

/-- A walk that makes the same step at every entry finds fault with an entry by itself. -/
theorem reports_mapM {f : α → Except ε β} {fault : α → ε → Prop}
    (h : ∀ x ∈ xs, ∀ e, f x = .error e ↔ fault x e) :
    Reports (fun _ => fault) xs (xs.mapM f) := by
  induction xs with
  | nil => exact reports_nil []
  | cons x xs ih =>
    obtain ⟨hx, hxs⟩ := List.forall_mem_cons.1 h
    rw [List.mapM_cons]
    cases hfx : f x with
    | error e =>
      refine reports_of_fault fun e' => ?_
      rw [← hx e', hfx, Except.error.injEq, eq_comm]
    | ok b =>
      refine Reports.cons (fun e => ?_) fun e => ?_
      · rw [← hx e, hfx]
        nofun
      · rw [← ih hxs e]
        cases xs.mapM f with
        | error e' => exact Iff.rfl
        | ok bs => exact iff_of_false nofun nofun

end

section

variable {κ : Type} [BEq κ] [LawfulBEq κ] {key : α → κ} {kept : List α} {k : κ}

/-- A walk that allows each key once finds fault with an entry whose key is taken. -/
theorem reports_of_find? {fault : List γ → γ → ε → Prop} {y : γ} {ys : List γ} {tell : α → ε}
    {r : Except ε β} (hn : (kept.map key).Nodup)
    (hfault : ∀ e, fault [] y e ↔ ∃ first ∈ kept, key first = k ∧ e = tell first)
    (hsome : ∀ first, kept.find? (key · == k) = some first → r = .error (tell first))
    (hnone : kept.find? (key · == k) = none → Reports (fun before => fault (y :: before)) ys r) :
    Reports fault (y :: ys) r := by
  cases hfind : kept.find? (key · == k) with
  | none =>
    refine Reports.cons (fun e he => ?_) (hnone hfind)
    obtain ⟨first, hfirst, hkey, -⟩ := (hfault e).1 he
    exact find?_key_eq_none.1 hfind first hfirst hkey
  | some first =>
    obtain ⟨hfirst, hkey⟩ := (find?_key_eq_some hn).1 hfind
    rw [hsome first hfind]
    refine reports_of_fault fun e => ?_
    rw [hfault e]
    constructor
    · rintro ⟨other, hother, hkey', rfl⟩
      rw [List.inj_on_of_nodup_map hn hother hfirst (hkey'.trans hkey.symm)]
    · exact fun he => ⟨first, hfirst, hkey, he⟩

end

/-! ## Checks in order -/

/-- Holds of what the first of some checks that finds something finds. -/
def FirstOf (checks : List (ε → Prop)) : ε → Prop :=
  FirstFault (fun _ check => check) checks

/-- Holds of a computation that fails with what the first of some checks finds. -/
def ReportsFirstOf (checks : List (ε → Prop)) (r : Except ε β) : Prop :=
  Reports (fun _ check => check) checks r

section

variable {check : ε → Prop} {checks : List (ε → Prop)} {r : Except ε α} {f : α → Except ε β}

theorem reportsFirstOf_singleton (h : ∀ e, r = .error e ↔ check e) : ReportsFirstOf [check] r := by
  intro e
  rw [firstFault_cons, ← h e]
  exact ⟨.inl, fun h' => h'.elim id fun h' => absurd h'.2 not_firstFault_nil⟩

theorem ReportsFirstOf.bind (hr : ∀ e, r = .error e ↔ check e)
    (hf : ∀ a, r = .ok a → ReportsFirstOf checks (f a)) :
    ReportsFirstOf (check :: checks) (r >>= f) := by
  cases r with
  | error e =>
    refine reports_of_fault fun e' => ?_
    rw [← hr e', Except.error.injEq, eq_comm]
  | ok a =>
    refine Reports.cons (fun e he => ?_) (hf a rfl)
    cases (hr e).2 he

theorem ReportsFirstOf.exists_ok (h : ReportsFirstOf checks r) :
    (∃ a, r = .ok a) ↔ ∀ check ∈ checks, ∀ e, ¬ check e := by
  rw [Reports.exists_ok h, faultless_iff_forall]

end

end ForwardShading
