import ForwardShading.Proofs.Light.Runs

/-!
# What is left in slots

A light that was in a slot before leaves nothing in it.  A group that was not written is zero
(`Slot.clean_staged`), and the groups are all of a record but its color (`PackedSlot.mem_toList`).  The
textures are those of the light in the slot (`Dispatcher.supplied_of_mem_commands`).  So dispatchers that
are set up alike answer alike, whatever they have dispatched (`Dispatcher.answer_congr`,
`Dispatcher.answer_after_congr`).
-/

namespace ForwardShading

/-- The numbers of a record that belong to a group. -/
def SlotField.data (p : PackedSlot) : SlotField → List Scalar
  | direction => p.direction.toList
  | position => p.position.toList
  | area => p.halfWidth.toList ++ p.halfHeight.toList
  | radius => [p.attenuation.x]
  | cone => [p.attenuation.y, p.attenuation.z]
  | shadow => p.shadowParams.toList ++ p.cameraParams.toList ++ [p.shadow.x]
  | searchArea => [p.shadow.y]
  | shadowMatrix => p.shadowMatrix.toList
  | cascades =>
    p.softShadowParams.toList ++ p.cascadeDistances.toList ++ [p.shadow.z, p.shadow.w] ++
      p.shadowPalette.toList.flatMap Mat4.toList
  | cookie => [p.cookie.x]
  | cookieTransform => p.cookieTransform.toList ++ [p.cookie.y, p.cookie.z]

/-- Every number of a record belongs to a group, but for its color and two that pad it. -/
theorem PackedSlot.mem_toList {p : PackedSlot} {x : Scalar} :
    x ∈ p.toList ↔ x ∈ p.color.toList ∨ x ∈ [p.attenuation.w, p.cookie.w] ∨
      ∃ f : SlotField, x ∈ f.data p := by
  have hfields : ∀ P : SlotField → Prop, (∃ f, P f) ↔ ∃ f ∈ SlotField.all, P f := fun P =>
    exists_congr fun f => by cases f <;> simp [SlotField.all]
  rw [hfields]
  simp only [toList, SlotField.all, SlotField.data, List.mem_append, List.mem_flatMap,
    List.mem_cons, List.not_mem_nil, or_false, exists_eq_or_imp, exists_eq_left, Vec4.toList]
  grind

namespace StagedSlot

/-- Holds of a slot in which the groups that were not written are zero. -/
def Clean (s : StagedSlot) : Prop :=
  ∀ f, s.written f = false → ∀ x ∈ f.data s.record, x = 0

/-- Only the shadow map and the cookie of a slot are set as textures. -/
theorem texture_of_mem_uniforms {s : StagedSlot} {u : LightUniform} {t : TextureHandle}
    (h : (u, .texture t) ∈ s.uniforms) :
    (u = .shadowMap ∧ s.shadowMap = some t) ∨ (u = .cookie ∧ s.cookie = some t) := by
  rcases List.mem_cons.1 h with h | h
  · cases h
  · obtain ⟨f, -, hf⟩ := List.mem_flatMap.1 h
    split_ifs at hf
    · cases f <;>
        simp only [groupUniforms, List.mem_append, Option.mem_toList, Option.map_eq_some_iff,
          Prod.mk.injEq, UniformValue.texture.injEq, exists_eq_right_right, List.mem_cons,
          reduceCtorEq, and_false, List.not_mem_nil, or_self, or_false] at hf
      case shadow => exact .inl ⟨hf.2.symm, hf.1⟩
      case cookie => exact .inr ⟨hf.2.symm, hf.1⟩
    · cases hf

end StagedSlot

theorem SlotField.data_zero (f : SlotField) : ∀ x ∈ f.data .zero, x = 0 := by
  cases f <;> decide

/-- A group that a slot does not have is as in a record that was never written. -/
theorem Slot.data_packed (s : Slot) {f : SlotField} (h : f.isIn s = false) :
    f.data s.packed = f.data .zero := by
  cases f <;>
    simp only [SlotField.isIn, Option.isSome_eq_false_iff, Option.isNone_iff_eq_none] at h <;>
    simp only [SlotField.data, packed, h] <;> rfl

theorem Slot.clean_staged (s : Slot) : s.staged.Clean := fun f hf x hx =>
  f.data_zero x (s.data_packed hf ▸ hx)

/-- The shadow map that a light supplies, where shadows are kept. -/
def Light.suppliedShadowMap (l : Light) (shadows : Bool) : Option TextureHandle :=
  (l.shadow.filter fun _ => shadows).map (·.map)

/-- The cookie that a light supplies, where cookies are kept. -/
def Light.suppliedCookie (l : Light) (cookies : Bool) : Option TextureHandle :=
  (l.cookie.filter fun _ => cookies).map (·.texture)

namespace Dispatch

variable (q : Dispatch) (shadows cookies : Bool) (l : Light)

/-- A slot has the shadow map of its light, or none. -/
theorem shadowMap_slot : (q.slot shadows cookies l).staged.shadowMap = none ∨
    (q.slot shadows cookies l).staged.shadowMap = l.suppliedShadowMap shadows := by
  cases q with
  | directional ls mask camera => exact .inr (Option.map_map _ _ _)
  | locals ls mask camera start =>
    show (Slot.ofLight shadows cookies l).staged.shadowMap = none ∨
      (Slot.ofLight shadows cookies l).staged.shadowMap = _
    unfold Slot.ofLight
    cases l.kind with
    | directional => exact .inl rfl
    | omni => exact .inr (Option.map_map _ _ _)
    | spot => exact .inr (Option.map_map _ _ _)

/-- A slot has the cookie of its light, or none. -/
theorem cookie_slot : (q.slot shadows cookies l).staged.cookie = none ∨
    (q.slot shadows cookies l).staged.cookie = l.suppliedCookie cookies := by
  cases q with
  | directional ls mask camera => exact .inl rfl
  | locals ls mask camera start =>
    show (Slot.ofLight shadows cookies l).staged.cookie = none ∨
      (Slot.ofLight shadows cookies l).staged.cookie = _
    unfold Slot.ofLight
    cases l.kind with
    | directional => exact .inl rfl
    | omni => exact .inr (Option.map_map _ _ _)
    | spot => exact .inr (Option.map_map _ _ _)

end Dispatch

namespace Dispatcher

variable {d d' : Dispatcher}

/-- A texture is only set for a slot where the light in it supplies that texture. -/
theorem supplied_of_mem_commands (q : Dispatch) {name : String} {t : TextureHandle}
    (h : Command.uniform name (.texture t) ∈ (d.answer q).commands) :
    ∃ j l, q.lights[j]? = some l ∧ q.start + j < (d.answer q).count ∧
      ((name = LightUniform.name (q.start + j) .shadowMap ∧
          l.suppliedShadowMap d.shadows = some t) ∨
        (name = LightUniform.name (q.start + j) .cookie ∧ l.suppliedCookie d.cookies = some t)) := by
  have hwrote := d.wroteFrom_answer q
  have hcount := hwrote.count
  rw [hwrote.commands] at h
  obtain ⟨j, s, u, value, hs, hu, hcommand⟩ := mem_slotCommands.1 h
  obtain ⟨rfl, rfl⟩ := Command.uniform.inj hcommand
  obtain ⟨hj, -⟩ := List.getElem?_eq_some_iff.1 hs
  obtain ⟨-, l, hl, rfl⟩ := (d.getElem?_written_eq_some q).1 hs
  refine ⟨j, l, hl, by omega, ?_⟩
  -- The flags leave two groups with a texture, and the staged slot knows where it is from.
  rw [← StagedSlot.uniforms_staged] at hu
  refine (StagedSlot.texture_of_mem_uniforms hu).imp ?_ ?_
  · rintro ⟨rfl, ht⟩
    refine ⟨rfl, ?_⟩
    rcases q.shadowMap_slot d.shadows d.cookies l with hnone | hmap
    · cases hnone.symm.trans ht
    · exact hmap.symm.trans ht
  · rintro ⟨rfl, ht⟩
    refine ⟨rfl, ?_⟩
    rcases q.cookie_slot d.shadows d.cookies l with hnone | hcookie
    · cases hnone.symm.trans ht
    · exact hcookie.symm.trans ht

theorem written_congr (h : d.setup = d'.setup) (q : Dispatch) : d.written q = d'.written q := by
  obtain ⟨hslots, hshadows, hcookies⟩ := setup_inj.1 h
  rw [written, written, hslots, hshadows, hcookies]

/-- What a dispatch writes depends on how the dispatcher is set up, and on nothing else of it. -/
theorem answer_congr (h : d.setup = d'.setup) (q : Dispatch) :
    (d.answer q).count = (d'.answer q).count ∧ (d.answer q).commands = (d'.answer q).commands ∧
      ∀ number, q.start ≤ number → number < (d.answer q).count →
        ∃ s, (d.answer q).dispatcher.slot? number = some s ∧
          (d'.answer q).dispatcher.slot? number = some s := by
  have hwrote := d.wroteFrom_answer q
  have hwrote' := d'.wroteFrom_answer q
  rw [← written_congr h] at hwrote'
  refine ⟨hwrote.count.trans hwrote'.count.symm, hwrote.commands.trans hwrote'.commands.symm,
    fun number hle hlt => ?_⟩
  obtain ⟨j, rfl⟩ := Nat.exists_eq_add_of_le hle
  have hj : j < (d.written q).length := by
    rw [hwrote.count] at hlt
    omega
  have hs := List.getElem?_eq_getElem hj
  exact ⟨_, (hwrote.slots j hj).trans hs, (hwrote'.slots j hj).trans hs⟩

/-- What a dispatcher has in a slot: the staged slot itself, its data and its fields. -/
structure Holds (d : Dispatcher) (number : Nat) (s : StagedSlot) : Prop where
  staged : d.staging.slots[number]? = some s
  packed : d.packed? number = some s.record
  fields : d.fields number = SlotField.all.filter s.written

theorem holds_of_slot? {number : Nat} {s : Slot} (h : d.slot? number = some s) :
    d.Holds number s.staged := by
  have hslots : d.slots[number]? = some (some s) := Option.join_eq_some_iff.1 h
  constructor
  case staged =>
    show (d.slots.map _)[number]? = _
    rw [Vector.getElem?_map, hslots]
    rfl
  case packed =>
    rw [packed?, hslots]
    rfl
  case fields =>
    rw [fields, h]
    rfl

/-- Dispatchers that are set up alike answer a dispatch alike, whatever they have dispatched before.
The slots that are written hold the same, with zeros where a group was not written, and no texture is
set that the light in the slot does not supply. -/
theorem answer_after_congr (h : d.setup = d'.setup) (es es' : List Dispatch) (q : Dispatch) :
    let r := (d.after es).answer q
    let r' := (d'.after es').answer q
    (d.staging.after? es).bind (·.answer? q) = some r.staged ∧
      (d'.staging.after? es').bind (·.answer? q) = some r'.staged ∧
      r.count = r'.count ∧ r.commands = r'.commands ∧
      (∀ number, q.start ≤ number → number < r.count →
        ∃ s, r.dispatcher.Holds number s ∧ r'.dispatcher.Holds number s ∧ s.Clean) ∧
      ∀ name t, .uniform name (.texture t) ∈ r.commands →
        ∃ j l, q.lights[j]? = some l ∧ q.start + j < r.count ∧
          ((name = LightUniform.name (q.start + j) .shadowMap ∧
              l.suppliedShadowMap d.shadows = some t) ∨
            (name = LightUniform.name (q.start + j) .cookie ∧
              l.suppliedCookie d.cookies = some t)) := by
  intro r r'
  have hsetup : (d.after es).setup = (d'.after es').setup := by
    rw [setup_after, setup_after, h]
  obtain ⟨hcount, hcommands, hslots⟩ := answer_congr hsetup q
  refine ⟨d.answer?_after?_staging es q, d'.answer?_after?_staging es' q, hcount, hcommands,
    fun number hle hlt => ?_, fun name t ht => ?_⟩
  · obtain ⟨s, hs, hs'⟩ := hslots number hle hlt
    exact ⟨s.staged, holds_of_slot? hs, holds_of_slot? hs', s.clean_staged⟩
  · have hd := d.setup_after es
    simp only [setup, Prod.mk.injEq] at hd
    have hsupplied := (d.after es).supplied_of_mem_commands q ht
    rwa [hd.2.1, hd.2.2] at hsupplied

/-- An omni light with a shadow map and a cookie is gone from the slot in which a directional light
comes next. -/
theorem answer_after_congr_directional :
    let omni : Light :=
      { kind := .omni, shadow := some { map := ⟨7⟩ }, cookie := some { texture := ⟨9⟩ } }
    let fresh := Dispatcher.ofSlots 2 true true
    let used := fresh.after [.locals ⟨[], [omni], []⟩ 1 {} 0]
    let q := Dispatch.directional [{ kind := .directional }] 1 {}
    (used.slot? 0).any (fun s => s.shadow.isSome && s.cookie.isSome) = true ∧
      used.setup = fresh.setup ∧
      ((used.after []).answer q).count = 1 ∧
      ((used.after []).answer q).commands = ((fresh.after []).answer q).commands ∧
      ∃ s, ((used.after []).answer q).dispatcher.Holds 0 s ∧ s.Clean := by
  intro omni fresh used q
  have hsetup : used.setup = fresh.setup := fresh.setup_after _
  have hcount : ((used.after []).answer q).count = 1 := by decide +kernel
  obtain ⟨-, -, -, hcommands, hslots, -⟩ := answer_after_congr hsetup [] [] q
  obtain ⟨s, hs, -, hclean⟩ := hslots 0 (Nat.le_refl 0) (by rw [hcount]; exact Nat.zero_lt_one)
  exact ⟨by decide +kernel, hsetup, hcount, hcommands, s, hs, hclean⟩

end Dispatcher

end ForwardShading
