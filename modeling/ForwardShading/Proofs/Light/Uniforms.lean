import ForwardShading.Proofs.Light.Runs
import ForwardShading.Proofs.Text.Numeral
import ForwardShading.Proofs.Text.Search
import Mathlib.Data.List.Nodup

/-!
# Uniforms of light slots

A name, read up to its separator, tells the slot and the uniform (`LightUniform.breakAt_name`), so no
two uniforms have one name, whatever their slots (`LightUniform.name_inj`).  The table of names reaches
up to the last slot that a run of dispatches writes (`Dispatcher.rows_after`), and a slot sets each of
its uniforms once (`Slot.nodup_uniforms`).  An upload leaves the uniforms of all other slots alone
(`Dispatcher.keepsOtherSlots_upload`), and so a device goes on showing the slots that a dispatch does not
write (`DeviceState.Shows.answer`).  `Dispatcher.uniforms_apart` says so of any run of dispatches.
-/

namespace ForwardShading

/-! ## Names -/

namespace LightUniform

/-- Every uniform, group by group as a slot sets them. -/
def all : List LightUniform :=
  [color] ++ [direction] ++ [position] ++ [halfWidth, halfHeight] ++ [radius] ++
    [innerConeAngle, outerConeAngle] ++
    [shadowMap, shadowParams, shadowIntensity, cameraParams] ++ [shadowSearchArea] ++
    [shadowMatrix] ++
    [shadowMatrixPalette, shadowCascadeDistances, shadowCascadeCount, shadowCascadeBlend,
      softShadowParams] ++
    [cookie, cookieIntensity] ++ [cookieMatrix, cookieOffset]

theorem mem_all (u : LightUniform) : u ∈ all := by
  cases u <;> decide

theorem suffix_injective : Function.Injective suffix := fun u v h =>
  have hnodup : (all.map suffix).Nodup := by decide
  List.inj_on_of_nodup_map hnodup u.mem_all v.mem_all h

/-- The digits of the slot end at the first separator of a name. -/
theorem breakAt_name (number : Nat) (u : LightUniform) :
    Text.breakAt '_' (name number u).toList =
      some ("light".toList ++ (toString number).toList, u.suffix.toList) := by
  have hseparator : '_' ∉ "light".toList ++ (toString number).toList := by
    rw [List.mem_append, not_or]
    exact ⟨by decide, fun h => absurd (Text.isDigit_of_mem_toString h) (by decide)⟩
  have hname : (name number u).toList =
      "light".toList ++ (toString number).toList ++ '_' :: u.suffix.toList := by
    simp [name, String.toList_append]
  rw [hname, Text.breakAt_append_cons hseparator]

theorem name_inj {i j : Nat} {a b : LightUniform} : name i a = name j b ↔ i = j ∧ a = b := by
  constructor
  · intro h
    have hbreak := breakAt_name j b
    rw [← h, breakAt_name, Option.some.injEq, Prod.mk.injEq, List.append_cancel_left_eq,
      String.toList_inj, String.toList_inj, Text.toString_inj] at hbreak
    exact ⟨hbreak.1, suffix_injective hbreak.2⟩
  · rintro ⟨rfl, rfl⟩
    rfl

end LightUniform

/-! ## The table -/

theorem NameTable.rows_eq (t : NameTable) :
    t.rows = (List.range t.rows.length).map LightUniform.name := by
  refine List.ext_getElem (by simp) fun number h _ => ?_
  rw [t.numbered number h, List.getElem_map, List.getElem_range]

namespace Dispatch

/-- The number of slots up to the last one that a dispatch writes, zero where it writes none. -/
def reach (maxSlots : Nat) (q : Dispatch) : Nat :=
  let stop := min maxSlots (q.start + q.lights.length)
  if q.start < stop then stop else 0

/-- The number of slots up to the last one that a run of dispatches writes. -/
def reachOf (maxSlots : Nat) (es : List Dispatch) : Nat :=
  (es.map (reach maxSlots)).foldr max 0

end Dispatch

namespace Dispatcher

variable (d : Dispatcher) (es : List Dispatch) (q : Dispatch)

theorem length_rows_answer :
    (d.answer q).dispatcher.names.rows.length = max d.names.rows.length (q.reach d.maxSlots) := by
  rw [answer_eq, length_rows_dispatch, List.length_map]
  rfl

theorem length_rows_after :
    (d.after es).names.rows.length = max d.names.rows.length (Dispatch.reachOf d.maxSlots es) := by
  induction es generalizing d with
  | nil => exact (Nat.max_zero _).symm
  | cons q es ih =>
    have hslots := (setup_inj.1 (d.setup_answer q)).1
    refine (ih (d.answer q).dispatcher).trans ?_
    rw [length_rows_answer, hslots, Nat.max_assoc]
    rfl

/-- Wherever the dispatches of a run start, names are made for the slots in a row, up to the last one that
is written. -/
theorem rows_after (slots : Nat) (shadows cookies : Bool) :
    ((ofSlots slots shadows cookies).after es).names.rows =
      (List.range (Dispatch.reachOf (max slots 1) es)).map LightUniform.name := by
  have hlength := (ofSlots slots shadows cookies).length_rows_after es
  have hempty : (ofSlots slots shadows cookies).names.rows.length = 0 := rfl
  rw [hempty, Nat.zero_max] at hlength
  rw [NameTable.rows_eq, hlength]
  rfl

end Dispatcher

/-! ## What uploads set -/

theorem map_fst_uniformsOf_sublist {α : Type} (group : Option α)
    {f : α → List (LightUniform × UniformValue)} {us : List LightUniform}
    (h : ∀ a, (f a).map Prod.fst = us) : ((uniformsOf group f).map Prod.fst).Sublist us := by
  cases group with
  | none => exact List.nil_sublist us
  | some a =>
    rw [← h a]
    exact List.Sublist.refl _

namespace Slot

variable (s : Slot)

/-- The groups that a slot does not have are left out of the order of its uniforms. -/
theorem map_fst_uniforms_sublist : (s.uniforms.map Prod.fst).Sublist LightUniform.all := by
  simp only [uniforms, LightUniform.all, List.map_append]
  repeat refine List.Sublist.append ?_ (map_fst_uniformsOf_sublist _ fun _ => rfl)
  exact List.Sublist.refl _

theorem nodup_uniforms : (s.uniforms.map Prod.fst).Nodup := by
  have hall : LightUniform.all.Nodup := by decide
  exact hall.sublist s.map_fst_uniforms_sublist

theorem eq_of_mem_uniforms {u : LightUniform} {value value' : UniformValue}
    (h : (u, value) ∈ s.uniforms) (h' : (u, value') ∈ s.uniforms) : value = value' :=
  congrArg Prod.snd (List.inj_on_of_nodup_map s.nodup_uniforms h h' rfl)

end Slot

/-- The last command for a uniform of a slot is the only one, and has the value of the slot. -/
theorem lastFor?_slotCommands {start j : Nat} {slots : List Slot} {s : Slot}
    (hs : slots[j]? = some s) {u : LightUniform} {value : UniformValue}
    (hu : (u, value) ∈ s.uniforms) :
    lastFor? (.uniform (LightUniform.name (start + j) u)) (slotCommands start slots) =
      some (.uniform (LightUniform.name (start + j) u) value) := by
  refine lastFor?_eq_some_of_unique (mem_slotCommands.2 ⟨j, s, u, value, hs, hu, rfl⟩) rfl
    fun c hc hr => ?_
  obtain ⟨j', s', u', value', hs', hu', rfl⟩ := mem_slotCommands.1 hc
  obtain ⟨hnumber, rfl⟩ := LightUniform.name_inj.1 (Register.uniform.inj (Option.some.inj hr))
  obtain rfl := Nat.add_left_cancel hnumber
  obtain rfl := Option.some.inj (hs'.symm.trans hs)
  rw [s'.eq_of_mem_uniforms hu' hu]

/-! ## What a device keeps -/

/-- Holds of commands that leave the uniforms of all other slots as they are. -/
def KeepsOtherSlots (number : Nat) (cs : List Command) : Prop :=
  ∀ (δ : DeviceState) other u, other ≠ number →
    δ.run cs (.uniform (LightUniform.name other u)) = δ (.uniform (LightUniform.name other u))

theorem Dispatcher.keepsOtherSlots_upload (d : Dispatcher) (number : Nat) :
    KeepsOtherSlots number (d.upload number) := by
  intro δ other u hother
  refine δ.run_eq_of_notMem fun hr => ?_
  obtain ⟨c, hc, hr⟩ := mem_registers.1 hr
  obtain ⟨v, value, rfl⟩ := d.exists_of_mem_upload hc
  have hname : LightUniform.name number v = LightUniform.name other u :=
    Register.uniform.inj (Option.some.inj hr)
  exact hother (LightUniform.name_inj.1 hname).1.symm

/-- Holds of a device that has the uniforms of every slot as the slot sets them. -/
def DeviceState.Shows (δ : DeviceState) (d : Dispatcher) : Prop :=
  ∀ number s, d.slot? number = some s → ∀ u value, (u, value) ∈ s.uniforms →
    δ (.uniform (LightUniform.name number u)) =
      some (.uniform (LightUniform.name number u) value)

/-- A dispatch brings the slots that it writes to the device, and leaves the others shown. -/
theorem DeviceState.Shows.answer {δ : DeviceState} {d : Dispatcher} (h : δ.Shows d) (q : Dispatch) :
    (δ.run (d.answer q).commands).Shows (d.answer q).dispatcher := by
  intro number s hs u value hu
  have hwrote := d.wroteFrom_answer q
  rw [run_eq, hwrote.commands]
  by_cases hin : q.start ≤ number ∧ number < q.start + (d.written q).length
  · obtain ⟨j, rfl⟩ := Nat.exists_eq_add_of_le hin.1
    rw [hwrote.slots j (by omega)] at hs
    rw [lastFor?_slotCommands hs hu, Option.some_or]
  · have hnone : Register.uniform (LightUniform.name number u) ∉
        registers (slotCommands q.start (d.written q)) := by
      intro hr
      obtain ⟨j, hj, v, hname⟩ := mem_registers_slotCommands hr
      have hnumber := (LightUniform.name_inj.1 (Register.uniform.inj hname)).1
      omega
    rw [hwrote.others number (by omega)] at hs
    rw [lastFor?_eq_none_iff.2 hnone, Option.none_or]
    exact h number s hs u value hu

namespace Dispatcher

/-- The commands of a run of dispatches. -/
def issued (d : Dispatcher) : List Dispatch → List Command
  | [] => []
  | q :: es => (d.answer q).commands ++ (d.answer q).dispatcher.issued es

theorem shows_issued {δ : DeviceState} {d : Dispatcher} (h : δ.Shows d) (es : List Dispatch) :
    (δ.run (d.issued es)).Shows (d.after es) := by
  induction es generalizing δ d with
  | nil => exact h
  | cons q es ih =>
    rw [issued, DeviceState.run_append]
    exact ih (h.answer q)

theorem shows_ofSlots (δ : DeviceState) (slots : Nat) (shadows cookies : Bool) :
    δ.Shows (ofSlots slots shadows cookies) := by
  intro number s hs
  have hslot : (ofSlots slots shadows cookies).slots[number]? = some (some s) :=
    Option.join_eq_some_iff.1 hs
  obtain ⟨_, hblank⟩ := Vector.getElem?_eq_some_iff.1 hslot
  cases (Vector.getElem_replicate _).symm.trans hblank

/-- The uniforms of all slots have names of their own.  After any run of dispatches each row of the table
has the names of the slot of its number, and there are rows up to the last slot that was written.  An
upload leaves the uniforms of all other slots alone, and the device shows every slot as it was last
written. -/
theorem uniforms_apart (slots : Nat) (shadows cookies : Bool) (es : List Dispatch)
    (δ : DeviceState) :
    let new := ofSlots slots shadows cookies
    let d := new.after es
    (∀ i j a b, LightUniform.name i a = LightUniform.name j b ↔ i = j ∧ a = b) ∧
      d.names.rows = (List.range (Dispatch.reachOf new.maxSlots es)).map LightUniform.name ∧
      (∀ number, KeepsOtherSlots number (d.upload number)) ∧
      (δ.run (new.issued es)).Shows d := by
  intro new d
  have hrows : d.names.rows = _ := rows_after es slots shadows cookies
  have hshown : (δ.run (new.issued es)).Shows d := shows_issued (shows_ofSlots δ _ _ _) es
  exact ⟨fun _ _ _ _ => LightUniform.name_inj, hrows, d.keepsOtherSlots_upload, hshown⟩

/-- A dispatch that starts far behind the table makes the names in between, and only the slot that it
writes is filled. -/
example :
    let lamp : Light := { kind := .omni }
    let d := (ofSlots 16 true true).after [.locals ⟨[], [lamp], []⟩ 1 {} 11]
    d.names.rows.length = 12 ∧ (d.slot? 11).isSome ∧ d.slot? 1 = none := by
  decide +kernel

end Dispatcher

end ForwardShading
