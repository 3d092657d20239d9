import Mathlib.Data.List.Forall2

/-!
# Computations that may fail

How a result of several steps, each of which may fail, comes about: every step has given a result.
-/

namespace ForwardShading

variable {ε α β : Type}

theorem bind_eq_ok {x : Except ε α} {f : α → Except ε β} {b : β} :
    x >>= f = .ok b ↔ ∃ a, x = .ok a ∧ f a = .ok b := by
  constructor
  · intro h
    cases x with
    | error e => cases h
    | ok a => exact ⟨a, rfl, h⟩
  · rintro ⟨a, rfl, h⟩
    exact h

theorem bind_eq_error {x : Except ε α} {f : α → Except ε β} {e : ε} :
    x >>= f = .error e ↔ x = .error e ∨ ∃ a, x = .ok a ∧ f a = .error e := by
  cases x with
  | error e' =>
    constructor
    · intro h
      cases h
      exact .inl rfl
    · rintro (h | ⟨a, h, -⟩) <;> cases h
      rfl
  | ok a =>
    constructor
    · exact fun h => .inr ⟨a, rfl, h⟩
    · rintro (h | ⟨a, h, hf⟩) <;> cases h
      exact hf

theorem map_eq_ok {x : Except ε α} {f : α → β} {b : β} :
    f <$> x = .ok b ↔ ∃ a, x = .ok a ∧ f a = b := by
  constructor
  · intro h
    cases x with
    | error e => cases h
    | ok a =>
      cases h
      exact ⟨a, rfl, rfl⟩
  · rintro ⟨a, rfl, rfl⟩
    rfl

/-- Two computations look the same through `f`: they fail alike, or give results that do. -/
theorem map_eq_map_iff {x y : Except ε α} {f : α → β} :
    f <$> x = f <$> y ↔
      (∃ e, x = .error e ∧ y = .error e) ∨ ∃ a b, x = .ok a ∧ y = .ok b ∧ f a = f b := by
  constructor
  · intro h
    cases x with
    | error e =>
      cases y with
      | error e' =>
        cases h
        exact .inl ⟨e, rfl, rfl⟩
      | ok b => cases h
    | ok a =>
      cases y with
      | error e => cases h
      | ok b => exact .inr ⟨a, b, rfl, rfl, Except.ok.inj h⟩
  · rintro (⟨e, rfl, rfl⟩ | ⟨a, b, rfl, rfl, h⟩)
    · rfl
    · exact congrArg Except.ok h

/-- Two chains of steps agree if the second steps read nothing but what the first ones agree on. -/
theorem bind_eq_bind_of_map_eq {γ : Type} {x y : Except ε α} {g : α → γ} {f f' : α → Except ε β}
    (h : g <$> x = g <$> y) (hf : ∀ a a', g a = g a' → f a = f' a') : x >>= f = y >>= f' := by
  rcases map_eq_map_iff.1 h with ⟨e, rfl, rfl⟩ | ⟨a, a', rfl, rfl, ha⟩
  · rfl
  · exact hf a a' ha

theorem mapM_eq_ok {f : α → Except ε β} {as : List α} {bs : List β} :
    as.mapM f = .ok bs ↔ List.Forall₂ (fun a b => f a = .ok b) as bs := by
  constructor
  · intro h
    induction as generalizing bs with
    | nil =>
      cases h
      exact .nil
    | cons a as ih =>
      rw [List.mapM_cons, bind_eq_ok] at h
      obtain ⟨b, hb, h⟩ := h
      obtain ⟨bs', hbs, h⟩ := bind_eq_ok.1 h
      cases h
      exact .cons hb (ih hbs)
  · intro h
    induction h with
    | nil => rfl
    | cons hb _ ih =>
      rw [List.mapM_cons, hb, ih]
      rfl

/-- Fewer inputs give fewer of the results. -/
theorem exists_sublist_of_mapM {f : α → Except ε β} {as as' : List α} {bs : List β}
    (has : as'.Sublist as) (h : as.mapM f = .ok bs) : ∃ bs', as'.mapM f = .ok bs' ∧ bs'.Sublist bs := by
  induction has generalizing bs with
  | slnil => exact ⟨bs, h, List.Sublist.refl bs⟩
  | cons a _ ih =>
    obtain ⟨b, bs, hb, hbs, rfl⟩ := List.forall₂_cons_left_iff.1 (mapM_eq_ok.1 h)
    obtain ⟨bs', hbs', hsub⟩ := ih (mapM_eq_ok.2 hbs)
    exact ⟨bs', hbs', hsub.cons b⟩
  | cons_cons a _ ih =>
    obtain ⟨b, bs, hb, hbs, rfl⟩ := List.forall₂_cons_left_iff.1 (mapM_eq_ok.1 h)
    obtain ⟨bs', hbs', hsub⟩ := ih (mapM_eq_ok.2 hbs)
    exact ⟨b :: bs', mapM_eq_ok.2 (.cons hb (mapM_eq_ok.1 hbs')), hsub.cons_cons b⟩

theorem exists_of_mem_mapM {f : α → Except ε β} {as : List α} {bs : List β} {b : β}
    (h : as.mapM f = .ok bs) (hb : b ∈ bs) : ∃ a ∈ as, f a = .ok b := by
  have hresults := mapM_eq_ok.1 h
  induction hresults with
  | nil => cases hb
  | cons ha hrest ih =>
    rcases List.mem_cons.1 hb with rfl | hb
    · exact ⟨_, List.mem_cons_self, ha⟩
    · obtain ⟨a, hmem, ha⟩ := ih (mapM_eq_ok.2 hrest) hb
      exact ⟨a, List.mem_cons_of_mem _ hmem, ha⟩

theorem exists_mem_of_mapM {f : α → Except ε β} {as : List α} {bs : List β} {a : α}
    (h : as.mapM f = .ok bs) (ha : a ∈ as) : ∃ b ∈ bs, f a = .ok b := by
  have hresults := mapM_eq_ok.1 h
  induction hresults with
  | nil => cases ha
  | cons hb hrest ih =>
    rcases List.mem_cons.1 ha with rfl | ha
    · exact ⟨_, List.mem_cons_self, hb⟩
    · obtain ⟨b, hmem, hb⟩ := ih (mapM_eq_ok.2 hrest) ha
      exact ⟨b, List.mem_cons_of_mem _ hmem, hb⟩

end ForwardShading
