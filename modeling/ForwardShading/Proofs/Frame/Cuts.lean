import ForwardShading.Proofs.Frame.Blocks

/-!
# Cut schedules

A schedule falls apart where two neighbours do not join: the passes of the actions in front are
followed by those of the actions behind, whose places are moved on (`Inputs.passes_append`).  So an
action that is not drawn has its passes between those of the actions before it and those of the
actions behind it (`Inputs.actionPasses_eq_of_not_isDrawn`).
-/

namespace ForwardShading.Frame

/-- Splitting looks at entries only through the relation. -/
theorem splitBy_map {α β : Type} (f : α → β) (r : β → β → Bool) (l : List α) :
    (l.map f).splitBy r = (l.splitBy fun a b => r (f a) (f b)).map (List.map f) := by
  refine List.splitBy_eq_iff.2 ⟨?_, ?_, fun m hm => ?_, ?_⟩
  · rw [← List.map_flatten, List.flatten_splitBy]
  · simp
  · obtain ⟨k, hk, rfl⟩ := List.mem_map.1 hm
    exact (List.isChain_map f).2 (List.isChain_of_mem_splitBy hk)
  · apply (List.isChain_map (List.map f)).2
    apply (List.isChain_getLast_head_splitBy (fun a b => r (f a) (f b)) l).imp
    rintro a b ⟨ha, hb, hab⟩
    exact ⟨by simpa, by simpa, by rwa [List.getLast_map, List.head_map]⟩

/-! ## Moving places on -/

/-- A pass whose actions stand `n` places further on. -/
def Pass.shift (n : Nat) : Pass → Pass
  | .forward target places clear => .forward target (places.map (· + n)) clear
  | p => p

theorem Pass.shift_of_role_ne {p : Pass} (h : p.role ≠ .draw) (n : Nat) : p.shift n = p := by
  cases p with
  | «forward» _ _ _ => exact absurd rfl h
  | _ => rfl

theorem map_shift_eq_self {ps : List Pass} (h : ∀ p ∈ ps, p.role ≠ .draw) (n : Nat) :
    ps.map (Pass.shift n) = ps := by
  rw [List.map_congr_left fun p hp => Pass.shift_of_role_ne (h p hp) n]
  exact List.map_id' ps

namespace Inputs

variable {inputs : Inputs} {a : Action} {i : Nat}

theorem map_shift_grabPasses (a : Action) (n : Nat) :
    (grabPasses a).map (Pass.shift n) = grabPasses a :=
  map_shift_eq_self (fun p hp => by simp [role_of_mem_grabPasses hp]) n

theorem map_shift_postPasses (a : Action) (n : Nat) :
    (postPasses a).map (Pass.shift n) = postPasses a :=
  map_shift_eq_self (fun p hp => by simp [role_of_mem_postPasses hp]) n

theorem map_shift_externals (camera : CameraId) (names : List String) (n : Nat) :
    (names.map (Pass.external camera)).map (Pass.shift n) = names.map (.external camera) :=
  map_shift_eq_self (fun p hp => by simp [role_of_mem_externals hp]) n

theorem drawPasses_shift (inputs : Inputs) (a : Action) (places : List Nat) (n : Nat) :
    inputs.drawPasses a (places.map (· + n)) =
      (inputs.drawPasses a places).map (Pass.shift n) := by
  by_cases hcapture : a.isCapture
  · simp [drawPasses, hcapture]
  · by_cases hneeds : inputs.needsShadows a <;>
      simp [drawPasses, hcapture, hneeds, Pass.shift]

/-- The passes of a block depend on its places only through what they draw. -/
theorem blockPasses_shift (inputs : Inputs) (block : List (Action × Nat)) (n : Nat) :
    inputs.blockPasses (block.map (Prod.map id (· + n))) =
      (inputs.blockPasses block).map (Pass.shift n) := by
  have hplaces : (block.map (Prod.map id (· + n))).map (·.2) = (block.map (·.2)).map (· + n) := by
    simp
  unfold blockPasses
  rw [List.head?_map, List.getLast?_map, hplaces]
  cases hfirst : block.head? with
  | none => rfl
  | some x =>
    cases hlast : block.getLast? with
    | none => rfl
    | some y =>
      cases hpasses : x.1.passes with
      | some names => simp [hpasses, map_shift_externals, -List.map_map]
      | none =>
        simp [hpasses, drawPasses_shift, map_shift_grabPasses, map_shift_postPasses, -List.map_map]

/-! ## Two schedules as one -/

/-- The same frame with other actions. -/
def withActions (inputs : Inputs) (actions : List Action) : Inputs :=
  { inputs with actions }

/-- The passes behind the prologue. -/
def actionPasses (inputs : Inputs) : List Pass :=
  inputs.passes.drop inputs.prologue.length

theorem actionPasses_eq (inputs : Inputs) :
    inputs.actionPasses = inputs.blocks.flatMap inputs.blockPasses :=
  List.drop_left

theorem passes_eq_append (inputs : Inputs) :
    inputs.passes = inputs.prologue ++ inputs.actionPasses := by
  rw [actionPasses_eq]
  rfl

/-- Holds of neighbours between which something has to happen, or which are not drawn. -/
def IsCut (inputs : Inputs) (a b : Action) : Prop :=
  a.usesCameraPasses ∨ b.usesCameraPasses ∨ a.isCapture ∨ b.isCapture ∨ a.target ≠ b.target ∨
    (b.flags.firstCameraUse ∧ inputs.shadowLights b.camera.id ≠ [])

theorem isCut_iff {b : Action} : inputs.IsCut a b ↔ inputs.joins a b = false := by
  have hneeds : inputs.needsShadows b = false ↔
      ¬ (b.flags.firstCameraUse ∧ inputs.shadowLights b.camera.id ≠ []) := by
    simp [needsShadows]
  rw [← Bool.not_eq_true, joins_iff, Action.isDrawn_iff, Action.isDrawn_iff, hneeds,
    eq_comm (a := b.target), IsCut]
  simp only [← Bool.not_eq_true]
  tauto

theorem actionPasses_append (inputs : Inputs) (as bs : List Action)
    (h : ∀ a ∈ as.getLast?, ∀ b ∈ bs.head?, inputs.joins a b = false) :
    (inputs.withActions (as ++ bs)).actionPasses =
      (inputs.withActions as).actionPasses ++
        (inputs.withActions bs).actionPasses.map (Pass.shift as.length) := by
  let joined : Action × Nat → Action × Nat → Bool := fun x y => inputs.joins x.1 y.1
  have hsplit : (as ++ bs).zipIdx.splitBy joined =
      as.zipIdx.splitBy joined ++
        (bs.zipIdx.splitBy joined).map (List.map (Prod.map id (· + as.length))) := by
    rw [List.zipIdx_append, Nat.zero_add, ← Nat.add_zero as.length,
      ← List.map_snd_add_zipIdx_eq_zipIdx, List.splitBy_append, splitBy_map]
    · rfl
    · intro x hx y hy
      rw [List.getLast?_zipIdx] at hx
      rw [List.head?_map, List.head?_zipIdx, Option.map_map] at hy
      obtain ⟨a, ha, rfl⟩ := Option.map_eq_some_iff.1 hx
      obtain ⟨b, hb, rfl⟩ := Option.map_eq_some_iff.1 hy
      exact h a ha b hb
  simp only [actionPasses_eq]
  show ((as ++ bs).zipIdx.splitBy joined).flatMap inputs.blockPasses =
    (as.zipIdx.splitBy joined).flatMap inputs.blockPasses ++
      ((bs.zipIdx.splitBy joined).flatMap inputs.blockPasses).map (Pass.shift as.length)
  rw [hsplit, List.flatMap_append, List.flatMap_map, List.map_flatMap]
  simp only [blockPasses_shift]

/-- An action that is not drawn has its passes between those of the actions before it and those of
the actions behind it. -/
theorem actionPasses_eq_of_not_isDrawn (h : inputs.actions[i]? = some a) (ha : ¬ a.isDrawn) :
    inputs.actionPasses =
      (inputs.withActions (inputs.actions.take i)).actionPasses ++ inputs.blockPasses [(a, i)] ++
        (inputs.withActions (inputs.actions.drop (i + 1))).actionPasses.map (Pass.shift (i + 1)) := by
  have hjoins : ∀ b, inputs.joins a b = false ∧ inputs.joins b a = false := fun b =>
    ⟨Bool.eq_false_iff.2 fun hab => ha (joins_iff.1 hab).1,
      Bool.eq_false_iff.2 fun hba => ha (joins_iff.1 hba).2.1⟩
  obtain ⟨hi, rfl⟩ := List.getElem?_eq_some_iff.1 h
  have hlength : (inputs.actions.take i).length = i := by
    rw [List.length_take]
    omega
  have hown : (inputs.withActions [inputs.actions[i]]).actionPasses.map (Pass.shift i) =
      inputs.blockPasses [(inputs.actions[i], i)] := by
    have hblock : (inputs.withActions [inputs.actions[i]]).actionPasses =
        inputs.blockPasses [(inputs.actions[i], 0)] := by
      rw [actionPasses_eq]
      exact List.append_nil _
    rw [hblock, ← blockPasses_shift]
    simp
  have hfront := inputs.actionPasses_append (inputs.actions.take i) [inputs.actions[i]]
    fun b _ c hc => by
      obtain rfl := Option.some.inj hc
      exact (hjoins b).2
  have hback := inputs.actionPasses_append (inputs.actions.take i ++ [inputs.actions[i]])
    (inputs.actions.drop (i + 1)) fun b hb c _ => by
      rw [List.getLast?_concat] at hb
      obtain rfl := Option.some.inj hb
      exact (hjoins c).1
  rw [hlength, hown] at hfront
  rw [hfront, List.length_append, hlength, ← List.take_succ_eq_append_getElem hi,
    List.take_append_drop] at hback
  exact hback

/-- Where two lists of actions meet at a cut, their passes follow each other, and so do the passes of
any camera and those of the actions around it. -/
theorem passes_append (inputs : Inputs) :
    (∀ as bs : List Action, (∀ a ∈ as.getLast?, ∀ b ∈ bs.head?, inputs.IsCut a b) →
      (inputs.withActions (as ++ bs)).passes =
        inputs.prologue ++ (inputs.withActions as).actionPasses ++
          (inputs.withActions bs).actionPasses.map (Pass.shift as.length)) ∧
    ∀ i a names, inputs.actions[i]? = some a → a.passes = some names →
      inputs.passes =
        inputs.prologue ++ (inputs.withActions (inputs.actions.take i)).actionPasses ++
          names.map (.external a.camera.id) ++
            (inputs.withActions (inputs.actions.drop (i + 1))).actionPasses.map
              (Pass.shift (i + 1)) := by
  constructor
  · intro as bs h
    have hpasses := inputs.actionPasses_append as bs fun a ha b hb => isCut_iff.1 (h a ha b hb)
    rw [passes_eq_append, hpasses, List.append_assoc]
    rfl
  · intro i a names h hnames
    have ha : ¬ a.isDrawn := by simp [Action.isDrawn, Action.usesCameraPasses, hnames]
    have hown : inputs.blockPasses [(a, i)] = names.map (.external a.camera.id) := by
      simp [blockPasses, hnames]
    rw [passes_eq_append, actionPasses_eq_of_not_isDrawn h ha, hown]
    simp only [List.append_assoc]

/-- A frame that draws into the back buffer, then into a map, with passes of a camera in between. -/
def relayed : Inputs where
  actions :=
    [{ camera := {}, target := none }, { camera := {}, target := none },
      { camera := {}, target := some ⟨1⟩ },
      { camera := { id := 1 }, target := some ⟨1⟩, passes := some ["gbuffer", "resolve"] },
      { camera := {}, target := some ⟨1⟩ }, { camera := {}, target := some ⟨1⟩ }]
  clustered := true

theorem passes_append_relayed :
    (∀ a ∈ (relayed.actions.take 2).getLast?, ∀ b ∈ (relayed.actions.drop 2).head?,
      relayed.IsCut a b) ∧
    (relayed.withActions (relayed.actions.drop 2)).actionPasses =
      [.forward (some ⟨1⟩) [0] {}, .external 1 "gbuffer", .external 1 "resolve",
        .forward (some ⟨1⟩) [2, 3] {}] ∧
    relayed.passes =
      [.clusteredLights, .forward none [0, 1] {}] ++
        (relayed.withActions (relayed.actions.drop 2)).actionPasses.map (Pass.shift 2) ∧
    relayed.passes =
      [.clusteredLights, .forward none [0, 1] {}, .forward (some ⟨1⟩) [2] {}] ++
        ["gbuffer", "resolve"].map (.external 1) ++
          (relayed.withActions (relayed.actions.drop 4)).actionPasses.map (Pass.shift 4) := by
  have hcut : ∀ a ∈ (relayed.actions.take 2).getLast?, ∀ b ∈ (relayed.actions.drop 2).head?,
      relayed.IsCut a b := by
    intro a ha b hb
    obtain rfl := Option.some.inj ha
    obtain rfl := Option.some.inj hb
    exact .inr (.inr (.inr (.inr (.inl (by decide)))))
  refine ⟨hcut, by decide, ?_, ?_⟩
  · exact relayed.passes_append.1 _ _ hcut
  · exact relayed.passes_append.2 3 _ _ rfl rfl

end Inputs

end ForwardShading.Frame
