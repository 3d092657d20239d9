import ForwardShading.Proofs.Frame.Blocks

/-!
# When directional shadows are rendered

An action that is drawn and needs shadows begins its block, and the shadows are rendered in front of
it.  A capture has none rendered for it.  So where the first use of a camera is a capture, its shadows
are in time only if a first use that is drawn follows before the camera draws
(`Inputs.shadowsReady_iff_isCapture`, `Inputs.not_shadowsReady_capturedFirst`).  All shadows that are
rendered stand immediately in front of the forward pass that needs them
(`Inputs.shadows_precede_forward`).
-/

namespace ForwardShading.Frame

/-- Where an entry of joined lists stands. -/
theorem exists_of_flatMap_eq_append {α β : Type} {f : α → List β} {l : List α} {y : β}
    {xs zs : List β} (h : l.flatMap f = xs ++ y :: zs) :
    ∃ as a bs ys ws, l = as ++ a :: bs ∧ f a = ys ++ y :: ws ∧ xs = as.flatMap f ++ ys := by
  induction l generalizing xs with
  | nil => simp at h
  | cons a l ih =>
    rw [List.flatMap_cons, List.append_eq_append_iff] at h
    rcases h with ⟨rest, rfl, h⟩ | ⟨rest, ha, h⟩
    · obtain ⟨as, b, bs, ys, ws, rfl, hb, rfl⟩ := ih h
      exact ⟨a :: as, b, bs, ys, ws, rfl, hb, by simp⟩
    · cases rest with
      | nil =>
        have hrest : l.flatMap f = [] ++ y :: zs := h.symm
        obtain ⟨as, b, bs, ys, ws, rfl, hb, hxs⟩ := ih hrest
        refine ⟨a :: as, b, bs, ys, ws, rfl, hb, ?_⟩
        rw [List.flatMap_cons, List.append_assoc, ← hxs, ha, List.append_nil, List.append_nil]
      | cons z rest =>
        obtain ⟨rfl, -⟩ := List.cons.inj h
        exact ⟨[], a, l, xs, rest, rfl, ha, rfl⟩

namespace Inputs

variable {inputs : Inputs} {a b : Action} {i j : Nat} {camera : CameraId} {p : Pass}
  {block : List (Action × Nat)}

/-- Whether the shadows of a camera are rendered in front of all passes that draw an action of the
camera, from the given place on. -/
def ShadowsReady (inputs : Inputs) (i : Nat) (camera : CameraId) : Prop :=
  ∃ before after,
    inputs.passes = before ++ .directionalShadows camera (inputs.shadowLights camera) :: after ∧
      ∀ k ∈ before.flatMap Pass.places, i ≤ k →
        ∀ b, inputs.actions[k]? = some b → b.camera.id ≠ camera

/-- Where a pass of a block stands. -/
theorem exists_block_of_passes_eq {front rest : List Pass} (hp : p.role ≠ .lights)
    (h : inputs.passes = front ++ p :: rest) :
    ∃ before block after ps qs, inputs.blocks = before ++ block :: after ∧
      inputs.blockPasses block = ps ++ p :: qs ∧
      front = inputs.prologue ++ before.flatMap inputs.blockPasses ++ ps := by
  have hnot : p ∉ inputs.prologue := fun hmem => hp (role_of_mem_prologue hmem)
  suffices ∃ ps, front = inputs.prologue ++ ps ∧
      inputs.blocks.flatMap inputs.blockPasses = ps ++ p :: rest by
    obtain ⟨ps, rfl, hps⟩ := this
    obtain ⟨before, block, after, ps, qs, hblocks, hblock, rfl⟩ := exists_of_flatMap_eq_append hps
    exact ⟨before, block, after, ps, qs, hblocks, hblock, (List.append_assoc ..).symm⟩
  rw [passes, List.append_eq_append_iff] at h
  rcases h with ⟨ps, hfront, hps⟩ | ⟨ps, hprologue, hps⟩
  · exact ⟨ps, hfront, hps⟩
  · cases ps with
    | nil => exact ⟨[], by simpa using hprologue.symm, hps.symm⟩
    | cons q ps =>
      obtain ⟨rfl, -⟩ := List.cons.inj hps
      exact absurd (by simp [hprologue]) hnot

/-- Shadows are rendered for the first action of a block, which is drawn. -/
theorem exists_of_shadows_mem_blockPasses {lights : List LightId} (h : block ∈ inputs.blocks)
    (hmem : .directionalShadows camera lights ∈ inputs.blockPasses block) :
    ∃ x rest, block = x :: rest ∧ x.1.isDrawn ∧ inputs.needsShadows x.1 ∧
      x.1.camera.id = camera := by
  have hscheduled := scheduled_blockPasses h
  generalize inputs.blockPasses block = ps at hscheduled hmem
  cases hscheduled with
  | @drawn x y rest all last =>
    rcases List.mem_append.1 hmem with hmem | hmem
    · simp only [shadowPasses, List.mem_ite_nil_right, List.mem_singleton,
        Pass.directionalShadows.injEq] at hmem
      exact ⟨x, rest, rfl, all x List.mem_cons_self, hmem.1, hmem.2.1.symm⟩
    · rcases List.mem_cons.1 hmem with hmem | hmem
      · cases hmem
      · cases role_of_mem_postPasses hmem
  | captured capture =>
    rcases List.mem_append.1 hmem with hmem | hmem
    · cases role_of_mem_grabPasses hmem
    · cases role_of_mem_postPasses hmem
  | supplied passes => cases role_of_mem_externals hmem

/-- An action that is drawn and needs shadows finds them rendered. -/
theorem blockPasses_eq_of_needsShadows {rest : List (Action × Nat)}
    (h : (b, j) :: rest ∈ inputs.blocks) (hdrawn : b.isDrawn) (hneeds : inputs.needsShadows b) :
    ∃ qs, inputs.blockPasses ((b, j) :: rest) =
      .directionalShadows b.camera.id (inputs.shadowLights b.camera.id) :: qs := by
  have hscheduled := scheduled_blockPasses h
  generalize inputs.blockPasses ((b, j) :: rest) = ps at hscheduled
  obtain ⟨huses, hcapture⟩ := Action.isDrawn_iff.1 hdrawn
  cases hscheduled with
  | drawn all last =>
    rw [shadowPasses, if_pos hneeds, List.singleton_append]
    exact ⟨_, rfl⟩
  | captured capture => exact absurd capture (by simp [hcapture])
  | supplied passes =>
    have hpasses : b.passes = some _ := passes
    exact absurd huses (by simp [Action.usesCameraPasses, hpasses])

theorem shadowsReady_of_needsShadows (h : inputs.actions[j]? = some b) (hdrawn : b.isDrawn)
    (hneeds : inputs.needsShadows b)
    (hbetween : ∀ k c, i ≤ k → k < j → inputs.actions[k]? = some c → c.isDrawn →
      c.camera.id ≠ b.camera.id) :
    inputs.ShadowsReady i b.camera.id := by
  obtain ⟨before, front, back, after, hblocks⟩ := exists_blocks_eq h
  have hblock := mem_blocks_of_eq_append hblocks
  -- Nothing joins an action that needs shadows, so the action is the first of its block.
  obtain rfl : front = [] := by
    cases front with
    | nil => rfl
    | cons z front =>
      have hjoins := (joins_iff.1 (joins_of_mem_rest hblock (y := (b, j)) (by simp))).2.2.2
      exact absurd hneeds (by simp [hjoins])
  obtain ⟨qs, hqs⟩ := blockPasses_eq_of_needsShadows hblock hdrawn hneeds
  refine ⟨inputs.prologue ++ before.flatMap inputs.blockPasses,
    qs ++ after.flatMap inputs.blockPasses, ?_, fun k hk hik c hc => ?_⟩
  · simp only [passes, hblocks, List.flatMap_append, List.flatMap_cons, List.nil_append, hqs,
      List.append_assoc, List.cons_append]
  · rw [List.flatMap_append, places_prologue, List.nil_append,
      mem_places_flatMap_blockPasses (before_subset hblocks)] at hk
    obtain ⟨d, hmem, hd, hdrawn⟩ := hk
    obtain rfl : c = d := Option.some.inj (hc.symm.trans hd)
    exact hbetween k c hik (lt_of_mem_before hblocks (List.mem_append_left _ hmem)) hc hdrawn

theorem exists_needsShadows_of_shadowsReady (h : inputs.ShadowsReady i camera) :
    ∃ j b, inputs.actions[j]? = some b ∧ b.isDrawn ∧ inputs.needsShadows b ∧
      b.camera.id = camera ∧ ∀ k c, i ≤ k → k < j → inputs.actions[k]? = some c → c.isDrawn →
        c.camera.id ≠ camera := by
  obtain ⟨front, rest, hpasses, hfront⟩ := h
  obtain ⟨before, block, after, ps, qs, hblocks, hps, rfl⟩ :=
    exists_block_of_passes_eq (by simp [Pass.role]) hpasses
  have hblock : block ∈ inputs.blocks := by
    rw [hblocks]
    exact List.mem_append_right _ List.mem_cons_self
  have hmem : .directionalShadows camera (inputs.shadowLights camera) ∈
      inputs.blockPasses block := by
    rw [hps]
    exact List.mem_append_right _ List.mem_cons_self
  obtain ⟨⟨b, j⟩, rest, rfl, hdrawn, hneeds, hcamera⟩ :=
    exists_of_shadows_mem_blockPasses hblock hmem
  refine ⟨j, b, getElem?_of_mem_block hblock List.mem_cons_self, hdrawn, hneeds, hcamera,
    fun k c hik hkj hc hcdrawn => hfront k ?_ hik c hc⟩
  have hfirst : inputs.blocks = before ++ ([] ++ (b, j) :: rest) :: after := hblocks
  have hmem : (c, k) ∈ before.flatten := by
    simpa using mem_before_of_lt hfirst hkj hc
  rw [List.flatMap_append, List.flatMap_append, List.mem_append, List.mem_append]
  exact .inl (.inr ((mem_places_flatMap_blockPasses (before_subset hfirst)).2
    ⟨c, hmem, hc, hcdrawn⟩))

/-- The shadows of a camera that is first used by an action are rendered in time exactly if the
action is no capture, or a first use of the camera that is drawn comes before all that the camera
draws later. -/
theorem shadowsReady_iff_isCapture (h : inputs.actions[i]? = some a)
    (huses : a.usesCameraPasses = false) (hneeds : inputs.needsShadows a) :
    inputs.ShadowsReady i a.camera.id ↔ a.isCapture = false ∨
      ∃ j b, inputs.actions[j]? = some b ∧ b.isDrawn ∧ inputs.needsShadows b ∧
        b.camera.id = a.camera.id ∧
        ∀ k c, i ≤ k → k < j → inputs.actions[k]? = some c → c.isDrawn →
          c.camera.id ≠ a.camera.id := by
  constructor
  · exact fun hready => .inr (exists_needsShadows_of_shadowsReady hready)
  · rintro (hcapture | ⟨j, b, hb, hdrawn, hneeds, hcamera, hbetween⟩)
    · exact shadowsReady_of_needsShadows h (Action.isDrawn_iff.2 ⟨huses, hcapture⟩) hneeds
        fun k c hik hki _ _ => absurd hki (Nat.not_lt.2 hik)
    · rw [← hcamera] at hbetween ⊢
      exact shadowsReady_of_needsShadows hb hdrawn hneeds hbetween

/-- A camera whose first use is a capture draws, and so does another one. -/
def capturedFirst : Inputs where
  actions :=
    [{ camera := { colorMap := true }, target := none,
        flags := { captureColor := true, firstCameraUse := true } },
      { camera := { colorMap := true }, target := none },
      { camera := { id := 1 }, target := none, flags := { firstCameraUse := true } }]
  directionalShadows := (OrderedMap.empty.insert 0 [7]).insert 1 [8]

/-- The shadows of the second camera are rendered in time. -/
theorem shadowsReady_iff_isCapture_capturedFirst :
    ∃ a, capturedFirst.actions[2]? = some a ∧ a.camera.id = 1 ∧ capturedFirst.needsShadows a ∧
      capturedFirst.ShadowsReady 2 1 := by
  have ha : capturedFirst.actions[2]? = some capturedFirst.actions[2] := rfl
  have hneeds : capturedFirst.needsShadows capturedFirst.actions[2] := by decide
  exact ⟨_, ha, rfl, hneeds, (shadowsReady_iff_isCapture ha rfl hneeds).2 (.inl rfl)⟩

/-- Those of the first camera are not rendered at all. -/
theorem not_shadowsReady_capturedFirst :
    ∃ a, capturedFirst.actions[0]? = some a ∧ a.usesCameraPasses = false ∧
      a.flags.firstCameraUse = true ∧ capturedFirst.shadowLights a.camera.id = [7] ∧
      ¬ capturedFirst.ShadowsReady 0 a.camera.id := by
  refine ⟨capturedFirst.actions[0], rfl, rfl, rfl, by decide, fun hready => ?_⟩
  obtain ⟨before, after, hpasses, -⟩ := hready
  have hmem : .directionalShadows 0 [7] ∈ capturedFirst.passes := by
    rw [hpasses]
    exact List.mem_append_right _ List.mem_cons_self
  revert hmem
  decide

/-! ## The pass in front of a forward pass -/

variable {x : Action × Nat} {rest : List (Action × Nat)} {before : List (List (Action × Nat))}

/-- Only blocks that are drawn have shadows or a forward pass. -/
theorem exists_isDrawn_of_mem_blockPasses (h : block ∈ inputs.blocks)
    (hp : p ∈ inputs.blockPasses block) (hrole : p.role = .draw ∨ p.role = .shadows) :
    ∃ x rest, block = x :: rest ∧ x.1.isDrawn := by
  have hscheduled := scheduled_blockPasses h
  generalize inputs.blockPasses block = ps at hscheduled hp
  cases hscheduled with
  | @drawn x y rest all last => exact ⟨x, rest, rfl, all x List.mem_cons_self⟩
  | captured capture =>
    rcases List.mem_append.1 hp with hp | hp
    · simp [role_of_mem_grabPasses hp] at hrole
    · simp [role_of_mem_postPasses hp] at hrole
  | supplied passes => simp [role_of_mem_externals hp] at hrole

theorem exists_blockPasses_of_isDrawn (h : x :: rest ∈ inputs.blocks) (hdrawn : x.1.isDrawn) :
    ∃ last, inputs.blockPasses (x :: rest) =
      inputs.shadowPasses x.1 ++
        .forward x.1.target ((x :: rest).map (·.2)) x.1.flags.clear :: postPasses last := by
  have hscheduled := scheduled_blockPasses h
  generalize inputs.blockPasses (x :: rest) = ps at hscheduled
  obtain ⟨huses, hcapture⟩ := Action.isDrawn_iff.1 hdrawn
  cases hscheduled with
  | @drawn _ y _ all last => exact ⟨y.1, rfl⟩
  | captured capture => exact absurd capture (by simp [hcapture])
  | supplied passes => exact absurd huses (by simp [Action.usesCameraPasses, passes])

theorem role_getLast?_blockPasses (h : block ∈ inputs.blocks)
    (hp : (inputs.blockPasses block).getLast? = some p) : p.role ≠ .shadows := by
  intro hrole
  obtain ⟨x, rest, rfl, hdrawn⟩ :=
    exists_isDrawn_of_mem_blockPasses h (List.mem_of_getLast? hp) (.inr hrole)
  obtain ⟨last, hpasses⟩ := exists_blockPasses_of_isDrawn h hdrawn
  rw [hpasses, List.getLast?_append_cons] at hp
  rcases List.mem_cons.1 (List.mem_of_getLast? hp) with rfl | hp
  · cases hrole
  · rw [role_of_mem_postPasses hp] at hrole
    cases hrole

/-- No block ends with shadows. -/
theorem role_getLast?_append_flatMap (h : before ⊆ inputs.blocks)
    (hp : (inputs.prologue ++ before.flatMap inputs.blockPasses).getLast? = some p) :
    p.role ≠ .shadows := by
  rw [List.getLast?_append, Option.or_eq_some_iff] at hp
  rcases hp with hp | ⟨-, hp⟩
  · rw [List.getLast?_flatMap] at hp
    obtain ⟨block, hblock, hp⟩ := List.exists_of_findSome?_eq_some hp
    exact role_getLast?_blockPasses (h (List.mem_reverse.1 hblock)) hp
  · simp [role_of_mem_prologue (List.mem_of_getLast? hp)]

/-- The block that a pass belongs to, with what is in front of the pass and behind it. -/
theorem exists_block_of_passes_eq_append {front back : List Pass} (hp : p.role ≠ .lights)
    (h : inputs.passes = front ++ p :: back) :
    ∃ before block after ps qs, block ∈ inputs.blocks ∧ before ⊆ inputs.blocks ∧
      p ∈ inputs.blockPasses block ∧ inputs.blockPasses block = ps ++ p :: qs ∧
      front = inputs.prologue ++ before.flatMap inputs.blockPasses ++ ps ∧
      back = qs ++ List.flatMap inputs.blockPasses after := by
  obtain ⟨before, block, after, ps, qs, hblocks, hps, rfl⟩ := exists_block_of_passes_eq hp h
  refine ⟨before, block, after, ps, qs, ?_, ?_, ?_, hps, rfl, ?_⟩
  · rw [hblocks]
    exact List.mem_append_right _ List.mem_cons_self
  · rw [hblocks]
    exact List.subset_append_left _ _
  · rw [hps]
    exact List.mem_append_right _ List.mem_cons_self
  · rw [passes, hblocks, List.flatMap_append, List.flatMap_cons, hps] at h
    simpa using h.symm

/-- What is in front of a forward pass. -/
theorem exists_front_of_forward {front back : List Pass} {target : Option TargetHandle}
    {places : List Nat} {clear : ClearFlags}
    (h : inputs.passes = front ++ .forward target places clear :: back) :
    ∃ x rest before, x :: rest ∈ inputs.blocks ∧ before ⊆ inputs.blocks ∧
      places = (x :: rest).map (·.2) ∧
      front = inputs.prologue ++ before.flatMap inputs.blockPasses ++ inputs.shadowPasses x.1 := by
  obtain ⟨before, block, after, ps, qs, hblock, hbefore, hmem, hps, rfl, -⟩ :=
    exists_block_of_passes_eq_append (by simp [Pass.role]) h
  obtain ⟨x, rest, rfl, hdrawn⟩ := exists_isDrawn_of_mem_blockPasses hblock hmem (.inl rfl)
  obtain ⟨last, hpasses⟩ := exists_blockPasses_of_isDrawn hblock hdrawn
  rw [hpasses, List.append_cons_inj_of_notMem] at hps
  · obtain ⟨rfl, hforward, -⟩ := hps
    cases hforward
    exact ⟨x, rest, before, hblock, hbefore, rfl, rfl⟩
  · exact fun hp => nomatch role_of_mem_shadowPasses hp
  · exact fun hp => nomatch role_of_mem_postPasses hp

/-- What is behind shadows. -/
theorem exists_back_of_shadows {front back : List Pass} {lights : List LightId}
    (h : inputs.passes = front ++ .directionalShadows camera lights :: back) :
    ∃ target places clear rest, back = .forward target places clear :: rest := by
  obtain ⟨before, block, after, ps, qs, hblock, -, hmem, hps, -, rfl⟩ :=
    exists_block_of_passes_eq_append (by simp [Pass.role]) h
  obtain ⟨x, rest, rfl, hdrawn, hneeds, -⟩ := exists_of_shadows_mem_blockPasses hblock hmem
  obtain ⟨last, hpasses⟩ := exists_blockPasses_of_isDrawn hblock hdrawn
  rw [hpasses, shadowPasses, if_pos hneeds, List.singleton_append, ← List.nil_append (_ :: _),
    List.append_cons_inj_of_notMem (by simp)] at hps
  · obtain ⟨-, -, rfl⟩ := hps
    exact ⟨_, _, _, _, rfl⟩
  · intro hp
    rcases List.mem_cons.1 hp with hp | hp
    · cases hp
    · cases role_of_mem_postPasses hp

/-- Shadows are rendered immediately in front of the forward pass whose first action needs them, and
nowhere else.  No other action of a forward pass needs any. -/
theorem shadows_precede_forward (inputs : Inputs) :
    (∀ front target places clear back,
      inputs.passes = front ++ .forward target places clear :: back →
        ∃ i others a, places = i :: others ∧ inputs.actions[i]? = some a ∧
          (∀ camera lights, front.getLast? = some (.directionalShadows camera lights) ↔
            inputs.needsShadows a ∧ camera = a.camera.id ∧
              lights = inputs.shadowLights a.camera.id) ∧
          ∀ j ∈ others, ∃ b, inputs.actions[j]? = some b ∧ inputs.needsShadows b = false) ∧
    ∀ front camera lights back, inputs.passes = front ++ .directionalShadows camera lights :: back →
      ∃ target places clear rest, back = .forward target places clear :: rest := by
  refine ⟨fun front target places clear back h => ?_, fun _ _ _ _ h => exists_back_of_shadows h⟩
  obtain ⟨x, rest, before, hblock, hbefore, rfl, rfl⟩ := exists_front_of_forward h
  refine ⟨x.2, rest.map (·.2), x.1, rfl, getElem?_of_mem_block hblock List.mem_cons_self,
    fun camera lights => ?_, fun j hj => ?_⟩
  · by_cases hneeds : inputs.needsShadows x.1
    · rw [shadowPasses, if_pos hneeds, List.getLast?_concat, Option.some.injEq,
        Pass.directionalShadows.injEq, eq_comm, eq_comm (b := lights)]
      exact (and_iff_right hneeds).symm
    · rw [shadowPasses, if_neg hneeds, List.append_nil]
      exact iff_of_false (fun hlast => role_getLast?_append_flatMap hbefore hlast rfl)
        fun h => hneeds h.1
  · obtain ⟨y, hy, rfl⟩ := List.mem_map.1 hj
    exact ⟨y.1, getElem?_of_mem_block hblock (List.mem_cons_of_mem _ hy),
      (joins_iff.1 (joins_of_mem_rest hblock hy)).2.2.2⟩

/-- The shadows of the second camera stand right in front of the pass that draws it. -/
theorem shadows_precede_forward_capturedFirst :
    capturedFirst.passes =
        [.colorGrab 0 none, .forward none [1] {}, .directionalShadows 1 [8], .forward none [2] {}] ∧
      ∃ a, capturedFirst.actions[2]? = some a ∧ capturedFirst.needsShadows a ∧ a.camera.id = 1 ∧
        capturedFirst.shadowLights a.camera.id = [8] := by
  have hpasses : capturedFirst.passes =
      [.colorGrab 0 none, .forward none [1] {}, .directionalShadows 1 [8]] ++
        [.forward none [2] {}] := by decide
  obtain ⟨i, others, a, hplaces, ha, hlast, -⟩ :=
    capturedFirst.shadows_precede_forward.1 _ _ _ _ _ hpasses
  obtain ⟨hneeds, hcamera, hlights⟩ := (hlast 1 [8]).1 rfl
  cases hplaces
  exact ⟨hpasses, a, ha, hneeds, hcamera.symm, hlights.symm⟩

end Inputs

end ForwardShading.Frame
