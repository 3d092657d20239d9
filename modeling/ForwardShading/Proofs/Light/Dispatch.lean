import ForwardShading.Light.Dispatch
import ForwardShading.Proofs.Device.State
import ForwardShading.Proofs.Light.Order
import Mathlib.Order.Basic

/-!
# What a dispatch writes

A dispatch gives slots to the lights that affect the mask, directional ones first, as long as there
are slots (`SortedLights.fitting`).  A slot is cleared before it is written, so what is read back from
it is the light alone (`Dispatcher.upload_writeSlot`).  The commands of a dispatch set the uniforms of
the slots that it writes and nothing else (`Dispatcher.commands_dispatchAll`): they depend on how the
dispatcher is set up, and not on what it wrote before (`Dispatcher.commands_dispatchAll_congr`).  The
slots hold the lights after it, and all other slots what they held (`Dispatcher.slot?_dispatch`).
-/

namespace ForwardShading

/-- The commands of slots that are written from `start` on. -/
def slotCommands (start : Nat) (slots : List Slot) : List Command :=
  (slots.zipIdx start).flatMap fun (s, number) => s.commands (LightUniform.name number)

theorem slotCommands_cons (start : Nat) (s : Slot) (ss : List Slot) :
    slotCommands start (s :: ss) =
      s.commands (LightUniform.name start) ++ slotCommands (start + 1) ss := by
  unfold slotCommands
  rw [List.zipIdx_cons, List.flatMap_cons]

theorem slotCommands_append (start : Nat) (as bs : List Slot) :
    slotCommands start (as ++ bs) =
      slotCommands start as ++ slotCommands (start + as.length) bs := by
  unfold slotCommands
  rw [List.zipIdx_append, List.flatMap_append]

/-- The commands set the uniforms of the slots, and nothing else. -/
theorem mem_slotCommands {start : Nat} {slots : List Slot} {c : Command} :
    c ∈ slotCommands start slots ↔
      ∃ j s u value, slots[j]? = some s ∧ (u, value) ∈ s.uniforms ∧
        c = .uniform (LightUniform.name (start + j) u) value := by
  unfold slotCommands
  rw [List.mem_flatMap]
  constructor
  · rintro ⟨⟨s, number⟩, hs, hc⟩
    obtain ⟨hle, hs⟩ := List.mk_mem_zipIdx_iff_le_and_getElem?_sub.1 hs
    obtain ⟨j, rfl⟩ := Nat.exists_eq_add_of_le hle
    rw [Nat.add_sub_cancel_left] at hs
    obtain ⟨⟨u, value⟩, hu, rfl⟩ := List.mem_map.1 hc
    exact ⟨j, s, u, value, hs, hu, rfl⟩
  · rintro ⟨j, s, u, value, hs, hu, rfl⟩
    refine ⟨(s, start + j), List.mk_mem_zipIdx_iff_le_and_getElem?_sub.2 ⟨Nat.le_add_right _ _, ?_⟩,
      List.mem_map.2 ⟨(u, value), hu, rfl⟩⟩
    rwa [Nat.add_sub_cancel_left]

theorem mem_registers_slotCommands {start : Nat} {slots : List Slot} {r : Register}
    (h : r ∈ registers (slotCommands start slots)) :
    ∃ j < slots.length, ∃ u, r = .uniform (LightUniform.name (start + j) u) := by
  obtain ⟨c, hc, hr⟩ := mem_registers.1 h
  obtain ⟨j, s, u, value, hs, -, rfl⟩ := mem_slotCommands.1 hc
  exact ⟨j, (List.getElem?_eq_some_iff.1 hs).1, u, (Option.some.inj hr).symm⟩

namespace SortedLights

/-- The lights that affect a mask and find one of `n` slots: directional lights first, then omni
lights, then spot lights. -/
def fitting (s : SortedLights) (n : Nat) (mask : UInt32) : SortedLights :=
  let directional := (s.directional.filter (·.affects mask)).take n
  let omni := (s.omni.filter (·.affects mask)).take (n - directional.length)
  let spot := (s.spot.filter (·.affects mask)).take (n - directional.length - omni.length)
  ⟨directional, omni, spot⟩

variable (s : SortedLights) (n : Nat) (mask : UInt32)

/-- Local lights take the slots that directional ones leave. -/
theorem locals_fitting :
    (s.fitting n mask).locals =
      (s.locals.filter (·.affects mask)).take (n - (s.fitting n mask).directional.length) := by
  simp only [locals, fitting, List.filter_append, List.take_append, List.length_take]
  congr 2
  omega

/-- The numbers of lights that fit: each kind takes what it needs of the slots that are left. -/
theorem counts_fitting :
    (s.fitting n mask).counts =
      let directional := min n (s.directional.countP (·.affects mask))
      let omni := min (n - directional) (s.omni.countP (·.affects mask))
      (directional, omni, min (n - directional - omni) (s.spot.countP (·.affects mask))) := by
  simp only [counts, fitting, List.length_take, List.countP_eq_length_filter]

/-- All lights fit exactly where all of them affect the mask and there are slots for all. -/
theorem counts_fitting_eq_iff :
    (s.fitting n mask).counts = s.counts ↔
      (∀ l ∈ s.all, l.affects mask) ∧ s.all.length ≤ n := by
  have hd := @List.countP_le_length _ (fun l => l.affects mask) s.directional
  have ho := @List.countP_le_length _ (fun l => l.affects mask) s.omni
  have hs := @List.countP_le_length _ (fun l => l.affects mask) s.spot
  have hall : (∀ l ∈ s.all, l.affects mask) ↔
      s.directional.countP (·.affects mask) = s.directional.length ∧
        s.omni.countP (·.affects mask) = s.omni.length ∧
          s.spot.countP (·.affects mask) = s.spot.length := by
    simp only [all, locals, List.mem_append, or_imp, forall_and, List.countP_eq_length]
  rw [counts_fitting, hall, counts, all, locals, List.length_append, List.length_append]
  simp only [Prod.mk.injEq]
  omega

theorem counts_fitting_le : (s.fitting n mask).counts ≤ s.counts := by
  have hd := @List.countP_le_length _ (fun l => l.affects mask) s.directional
  have ho := @List.countP_le_length _ (fun l => l.affects mask) s.omni
  have hs := @List.countP_le_length _ (fun l => l.affects mask) s.spot
  rw [counts_fitting, counts]
  simp only [Prod.mk_le_mk]
  omega

/-- The slots of lights, directional ones first. -/
def slots (shadows cookies : Bool) (camera : Camera) : List Slot :=
  s.directional.map (Slot.directional shadows camera) ++
    s.locals.map (Slot.ofLight shadows cookies)

theorem length_slots (shadows cookies : Bool) (camera : Camera) :
    (s.slots shadows cookies camera).length = s.all.length := by
  simp [slots, all]

end SortedLights

/-- Groups that are written over a cleared slot are the groups of the light. -/
theorem Slot.writeGroups_cleared (s : Slot) : writeGroups { color := s.color } s = s := by
  simp only [writeGroups, Option.or_none]

namespace NameTable

theorem length_rows_growTo (t : NameTable) (number : Nat) :
    (t.growTo number).rows.length = max t.rows.length (number + 1) := by
  have hrepeat : ∀ n : Nat, (n.repeat grow t).rows.length = t.rows.length + n := by
    intro n
    induction n with
    | zero => rfl
    | succ n ih =>
      rw [Nat.repeat, grow, List.length_append, ih]
      rfl
  rw [growTo, hrepeat]
  omega

theorem row?_of_lt (t : NameTable) {number : Nat} (h : number < t.rows.length) :
    t.row? number = some (LightUniform.name number) := by
  rw [row?, List.getElem?_eq_getElem h, t.numbered number h]

/-- The names of a slot are its own, however long the table was before. -/
theorem row?_growTo (t : NameTable) (number : Nat) :
    (t.growTo number).row? number = some (LightUniform.name number) := by
  apply row?_of_lt
  rw [length_rows_growTo]
  omega

end NameTable

/-- Holds of a dispatch that wrote the given slots, each to its number from `start` on, and no
others. -/
structure Dispatched.WroteFrom (x : Dispatched) (d : Dispatcher) (start : Nat) (written : List Slot) :
    Prop where
  count : x.count = start + written.length
  commands : x.commands = slotCommands start written
  slots : ∀ n < written.length, x.dispatcher.slot? (start + n) = written[n]?
  others : ∀ number, number < start ∨ start + written.length ≤ number →
    x.dispatcher.slot? number = d.slot? number

namespace Dispatcher

/-- What a dispatcher is set up with. -/
def setup (d : Dispatcher) : Nat × Bool × Bool :=
  (d.maxSlots, d.shadows, d.cookies)

theorem setup_inj {d d' : Dispatcher} : d.setup = d'.setup ↔
    d.maxSlots = d'.maxSlots ∧ d.shadows = d'.shadows ∧ d.cookies = d'.cookies := by
  simp only [setup, Prod.mk.injEq]

section Slots

variable {d : Dispatcher} {number : Nat}

theorem slot?_beginSlot (h : number < d.maxSlots) (color : Vec3) :
    (d.beginSlot number color).slot? number = some { color } :=
  congrArg Option.join (Vector.getElem?_setIfInBounds_self_of_lt h)

theorem slot?_writeSlot (h : number < d.maxSlots) (light : Slot) :
    (d.writeSlot number light).slot? number = (d.slot? number).map (·.writeGroups light) :=
  congrArg Option.join (Vector.getElem?_setIfInBounds_self_of_lt h)

theorem slot?_beginSlot_of_ne {other : Nat} (h : other ≠ number) (color : Vec3) :
    (d.beginSlot number color).slot? other = d.slot? other :=
  congrArg Option.join (Vector.getElem?_setIfInBounds_ne h.symm)

theorem slot?_writeSlot_of_ne {other : Nat} (h : other ≠ number) (light : Slot) :
    (d.writeSlot number light).slot? other = d.slot? other :=
  congrArg Option.join (Vector.getElem?_setIfInBounds_ne h.symm)

/-- What was in a slot before does not show in what is read back from it. -/
theorem upload_writeSlot (h : number < d.maxSlots) (light : Slot) :
    ((d.beginSlot number light.color).writeSlot number light).upload number =
      light.commands (LightUniform.name number) := by
  have hbegun : number < (d.beginSlot number light.color).maxSlots := h
  have hslot : ((d.beginSlot number light.color).writeSlot number light).slot? number =
      some light := by
    rw [slot?_writeSlot hbegun, slot?_beginSlot h, Option.map_some, Slot.writeGroups_cleared]
  have hnames : ((d.beginSlot number light.color).writeSlot number light).names.row? number =
      some (LightUniform.name number) := d.names.row?_growTo number
  rw [upload, hslot, hnames]

end Slots

/-- A dispatch writes as many lights as fit, and leaves the dispatcher set up as it was. -/
theorem dispatch_spec (d : Dispatcher) (start : Nat) (lights : List Slot) :
    (d.dispatch start lights).count = start + (lights.take (d.maxSlots - start)).length ∧
      (d.dispatch start lights).commands = slotCommands start (lights.take (d.maxSlots - start)) ∧
      (d.dispatch start lights).dispatcher.setup = d.setup := by
  induction lights generalizing d start with
  | nil => exact ⟨by simp [dispatch], by simp [dispatch, slotCommands], rfl⟩
  | cons light lights ih =>
    by_cases h : start < d.maxSlots
    · have hroom : d.maxSlots - start = d.maxSlots - (start + 1) + 1 := by omega
      obtain ⟨hcount, hcommands, hsetup⟩ :=
        ih ((d.beginSlot start light.color).writeSlot start light) (start + 1)
      rw [dispatch, if_pos h, hroom, List.take_succ_cons]
      refine ⟨hcount.trans ?_, ?_, hsetup⟩
      · rw [List.length_cons, Nat.add_right_comm]
        rfl
      · rw [slotCommands_cons, ← upload_writeSlot h]
        exact congrArg _ hcommands
    · have hroom : d.maxSlots - start = 0 := by omega
      have hdropped := ih d start
      rw [hroom, List.take_zero] at hdropped
      rwa [dispatch, if_neg h, hroom, List.take_zero]

/-- A dispatch leaves its lights in the slots from `start` on, one in each as long as there are slots,
and every other slot as it was. -/
theorem slot?_dispatch (d : Dispatcher) (start : Nat) (lights : List Slot) (number : Nat) :
    (d.dispatch start lights).dispatcher.slot? number =
      (if start ≤ number then (lights.take (d.maxSlots - start))[number - start]? else none).or
        (d.slot? number) := by
  induction lights generalizing d start with
  | nil => simp [dispatch]
  | cons light lights ih =>
    by_cases h : start < d.maxSlots
    · have hroom : d.maxSlots - start = d.maxSlots - (start + 1) + 1 := by omega
      have hbegun : start < (d.beginSlot start light.color).maxSlots := h
      rw [dispatch, if_pos h, hroom, List.take_succ_cons]
      refine (ih ((d.beginSlot start light.color).writeSlot start light) (start + 1)).trans ?_
      obtain hlt | rfl | hgt := Nat.lt_trichotomy number start
      · rw [if_neg (by omega), if_neg (by omega), slot?_writeSlot_of_ne (by omega),
          slot?_beginSlot_of_ne (by omega)]
      · rw [if_neg (by omega), if_pos (Nat.le_refl number), Nat.sub_self, slot?_writeSlot hbegun,
          slot?_beginSlot h, Option.map_some, Slot.writeGroups_cleared]
        rfl
      · have hindex : number - start = number - (start + 1) + 1 := by omega
        rw [if_pos (by omega), if_pos (by omega), hindex, List.getElem?_cons_succ,
          slot?_writeSlot_of_ne (by omega), slot?_beginSlot_of_ne (by omega)]
        rfl
    · have hroom : d.maxSlots - start = 0 := by omega
      rw [dispatch, if_neg h, ih d start, hroom, List.take_zero, List.take_zero]

theorem wroteFrom_dispatch (d : Dispatcher) (start : Nat) (lights : List Slot) :
    (d.dispatch start lights).WroteFrom d start (lights.take (d.maxSlots - start)) := by
  obtain ⟨hcount, hcommands, -⟩ := d.dispatch_spec start lights
  refine ⟨hcount, hcommands, fun n hn => ?_, fun number hnumber => ?_⟩
  · rw [slot?_dispatch, if_pos (Nat.le_add_right start n), Nat.add_sub_cancel_left,
      List.getElem?_eq_getElem hn, Option.some_or]
  · rw [slot?_dispatch]
    by_cases hstart : start ≤ number
    · rw [if_pos hstart, List.getElem?_eq_none (by omega), Option.none_or]
    · rw [if_neg hstart, Option.none_or]

@[simp]
theorem setup_dispatch (d : Dispatcher) (start : Nat) (lights : List Slot) :
    (d.dispatch start lights).dispatcher.setup = d.setup :=
  (d.dispatch_spec start lights).2.2

variable (d : Dispatcher) (ls : SortedLights) (mask : UInt32) (camera : Camera)

/-- The slots that a dispatch writes, in their order. -/
def writtenSlots (clustered : Bool) : List Slot :=
  let lights := ls.fitting d.maxSlots mask
  lights.directional.map (Slot.directional d.shadows camera) ++
    if clustered then [] else lights.locals.map (Slot.ofLight d.shadows d.cookies)

theorem writtenSlots_false :
    d.writtenSlots ls mask camera false =
      (ls.fitting d.maxSlots mask).slots d.shadows d.cookies camera :=
  rfl

theorem dispatchDirectional_spec :
    let directional := (ls.fitting d.maxSlots mask).directional
    (d.dispatchDirectional ls.directional mask camera).count = directional.length ∧
      (d.dispatchDirectional ls.directional mask camera).commands =
        slotCommands 0 (directional.map (Slot.directional d.shadows camera)) := by
  obtain ⟨hcount, hcommands, -⟩ := d.dispatch_spec 0
    ((ls.directional.filter (·.affects mask)).map (Slot.directional d.shadows camera))
  rw [← List.map_take, Nat.sub_zero] at hcount hcommands
  exact ⟨by rw [dispatchDirectional, hcount, Nat.zero_add, List.length_map]; rfl, hcommands⟩

@[simp]
theorem setup_dispatchAll (clustered : Bool) :
    (d.dispatchAll ls mask camera clustered).dispatcher.setup = d.setup := by
  cases clustered with
  | true => exact setup_dispatch _ _ _
  | false => exact (setup_dispatch _ _ _).trans (setup_dispatch _ _ _)

/-- A dispatch writes the lights that fit: it uses a slot for each of them, and sets the uniforms of
these slots in order. -/
theorem dispatchAll_spec (clustered : Bool) :
    (d.dispatchAll ls mask camera clustered).count =
        (d.writtenSlots ls mask camera clustered).length ∧
      (d.dispatchAll ls mask camera clustered).commands =
        slotCommands 0 (d.writtenSlots ls mask camera clustered) := by
  obtain ⟨hcount, hcommands⟩ := d.dispatchDirectional_spec ls mask camera
  cases clustered with
  | true => simp [dispatchAll, writtenSlots, hcount, hcommands]
  | false =>
    -- Local lights are written by the dispatcher that the directional ones leave behind.
    have hs : (d.dispatchDirectional ls.directional mask camera).dispatcher.setup = d.setup :=
      setup_dispatch _ _ _
    obtain ⟨hn, hshadows, hcookies⟩ := setup_inj.1 hs
    obtain ⟨hlocalCount, hlocalCommands, -⟩ :=
      dispatch_spec (d.dispatchDirectional ls.directional mask camera).dispatcher
        (ls.fitting d.maxSlots mask).directional.length
        ((ls.locals.filter (·.affects mask)).map (Slot.ofLight d.shadows d.cookies))
    rw [hn, ← List.map_take, ← SortedLights.locals_fitting] at hlocalCount hlocalCommands
    simp only [dispatchAll, dispatchLocal, writtenSlots, hcount, hcommands, hshadows, hcookies,
      Bool.false_eq_true, if_false]
    constructor
    · rw [hlocalCount, List.length_append, List.length_map, List.length_map]
    · rw [hlocalCommands, slotCommands_append, List.length_map, Nat.zero_add]

theorem commands_dispatchAll (clustered : Bool) :
    (d.dispatchAll ls mask camera clustered).commands =
      slotCommands 0 (d.writtenSlots ls mask camera clustered) :=
  (d.dispatchAll_spec ls mask camera clustered).2

variable {d} in
/-- What was dispatched before has no part in the commands of a dispatch. -/
theorem commands_dispatchAll_congr {d' : Dispatcher} (h : d.setup = d'.setup) (clustered : Bool) :
    (d.dispatchAll ls mask camera clustered).commands =
      (d'.dispatchAll ls mask camera clustered).commands := by
  obtain ⟨hslots, hshadows, hcookies⟩ := setup_inj.1 h
  rw [commands_dispatchAll, commands_dispatchAll, writtenSlots, writtenSlots, hslots, hshadows,
    hcookies]

end Dispatcher

end ForwardShading
