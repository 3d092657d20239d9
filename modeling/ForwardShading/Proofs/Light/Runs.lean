import ForwardShading.Proofs.Light.Staging

/-!
# Runs of dispatches

A dispatch writes lights to neighbouring slots as long as there are slots, and leaves all others alone
(`Dispatcher.places_answer`).  The names of a slot are there once it is written
(`Dispatcher.length_rows_dispatch`), so its uploads are named for it (`Dispatcher.exists_of_mem_upload`).
Staged slots go through any run of dispatches (`Dispatcher.after?_staging`): a light finds its slot and
its names wherever the runs before it have started (`Dispatcher.places_answer_after`).
-/

namespace ForwardShading

/-- A dispatch that can be asked for. -/
inductive Dispatch
  | directional (lights : List Light) (mask : UInt32) (camera : Camera)
  | locals (lights : SortedLights) (mask : UInt32) (camera : Camera) (start : Nat)

namespace Dispatch

/-- The number of the slot with which a dispatch begins. -/
def start : Dispatch → Nat
  | directional .. => 0
  | locals _ _ _ start => start

/-- The lights that affect the mask of a dispatch, in the order in which they are written. -/
def lights : Dispatch → List Light
  | directional ls mask _ => ls.filter (·.affects mask)
  | locals ls mask _ _ => ls.omni.filter (·.affects mask) ++ ls.spot.filter (·.affects mask)

/-- What a dispatch makes of a light. -/
def slot (shadows cookies : Bool) : Dispatch → Light → Slot
  | directional _ _ camera => Slot.directional shadows camera
  | locals .. => Slot.ofLight shadows cookies

end Dispatch

theorem slotCommands_eq_flatMap {upload : Nat → List Command} {start : Nat} {ss : List Slot}
    (h : ∀ j s, ss[j]? = some s → upload (start + j) = s.commands (LightUniform.name (start + j))) :
    slotCommands start ss = (List.range' start ss.length).flatMap upload := by
  induction ss generalizing start with
  | nil => rfl
  | cons s ss ih =>
    have hrest : slotCommands (start + 1) ss = (List.range' (start + 1) ss.length).flatMap upload :=
      ih fun j t ht => by
        rw [Nat.add_assoc, Nat.add_comm 1 j]
        exact h (j + 1) t ht
    rw [slotCommands_cons, List.length_cons, List.range'_succ, List.flatMap_cons, hrest]
    exact congrArg (· ++ _) (h 0 s rfl).symm

namespace Staging

/-- Answers a dispatch on slots in place. -/
def answer? (s : Staging) : Dispatch → Option Staged
  | .directional ls mask camera => s.directional? ls mask camera
  | .locals ls mask _ start => s.locals? ls mask start

/-- Staged slots after a run of dispatches. -/
def after? (s : Staging) (es : List Dispatch) : Option Staging :=
  es.foldlM (fun s e => (s.answer? e).map (·.staging)) s

end Staging

namespace Dispatcher

/-- Answers a dispatch. -/
def answer (d : Dispatcher) : Dispatch → Dispatched
  | .directional ls mask camera => d.dispatchDirectional ls mask camera
  | .locals ls mask camera start => d.dispatchLocal ls mask camera start

/-- A dispatcher after a run of dispatches. -/
def after (d : Dispatcher) (es : List Dispatch) : Dispatcher :=
  es.foldl (fun d e => (d.answer e).dispatcher) d

variable (d : Dispatcher) (es : List Dispatch) (q : Dispatch)

theorem answer_eq :
    d.answer q = d.dispatch q.start (q.lights.map (q.slot d.shadows d.cookies)) := by
  cases q with
  | directional ls mask camera => rfl
  | locals ls mask camera start =>
    rw [answer, dispatchLocal, SortedLights.locals, List.filter_append]
    rfl

theorem setup_answer : (d.answer q).dispatcher.setup = d.setup := by
  rw [answer_eq, setup_dispatch]

theorem setup_after : (d.after es).setup = d.setup := by
  induction es generalizing d with
  | nil => rfl
  | cons e es ih => exact (ih _).trans (d.setup_answer e)

/-- Dispatches over staged slots go through, and do what the dispatcher does. -/
theorem answer?_staging : d.staging.answer? q = some (d.answer q).staged := by
  cases q with
  | directional ls mask camera => exact d.directional?_staging ls mask camera
  | locals ls mask camera start => exact d.locals?_staging ls mask camera start

theorem after?_staging : d.staging.after? es = some (d.after es).staging := by
  induction es generalizing d with
  | nil => rfl
  | cons e es ih =>
    rw [Staging.after?, List.foldlM_cons, answer?_staging]
    exact ih (d.answer e).dispatcher

/-- Staged slots answer after any run, so no slot is looked for that is not there. -/
theorem answer?_after?_staging :
    (d.staging.after? es).bind (·.answer? q) = some ((d.after es).answer q).staged := by
  rw [after?_staging, Option.bind_some, answer?_staging]

theorem getElem?_slots (number : Nat) :
    d.slots[number]? = if number < d.maxSlots then some (d.slot? number) else none := by
  unfold slot?
  split_ifs with h
  · rw [Vector.getElem?_eq_getElem h]
    rfl
  · exact Vector.getElem?_eq_none (Nat.not_lt.1 h)

/-- The uploads of a slot set uniforms of that slot. -/
theorem exists_of_mem_upload {number : Nat} {c : Command} (h : c ∈ d.upload number) :
    ∃ u value, c = .uniform ("light" ++ toString number ++ "_" ++ LightUniform.suffix u) value := by
  unfold upload at h
  split at h
  case h_1 s names hs hnames =>
    have hlt : number < d.names.rows.length := (List.getElem?_eq_some_iff.1 hnames).1
    rw [d.names.row?_of_lt hlt, Option.some.injEq] at hnames
    obtain ⟨⟨u, value⟩, -, rfl⟩ := List.mem_map.1 h
    exact ⟨u, value, by rw [← hnames]; rfl⟩
  case h_2 => cases h

/-- Names reach up to the last slot that is written.  Where no light finds a slot, they stay as they
are. -/
theorem length_rows_dispatch (start : Nat) (lights : List Slot) :
    (d.dispatch start lights).dispatcher.names.rows.length =
      let stop := min d.maxSlots (start + lights.length)
      max d.names.rows.length (if start < stop then stop else 0) := by
  induction lights generalizing d start with
  | nil =>
    have hstop : ¬ start < min d.maxSlots (start + 0) := by omega
    simp only [dispatch, List.length_nil, if_neg hstop, Nat.max_zero]
  | cons light lights ih =>
    rw [dispatch, List.length_cons]
    split_ifs with h
    · -- Names are never taken away, so those of this slot outlast the lights behind it.
      have hbegun : ((d.beginSlot start light.color).writeSlot start light).names.rows.length =
        max d.names.rows.length (start + 1) := d.names.length_rows_growTo start
      have hslots : ((d.beginSlot start light.color).writeSlot start light).maxSlots = d.maxSlots :=
        rfl
      rw [ih, hbegun, hslots]
      dsimp only
      split_ifs <;> omega
    · rw [ih]
      dsimp only
      split_ifs <;> omega

/-- What a dispatch has written is what is uploaded from its slots. -/
theorem commands_dispatch (start : Nat) (lights : List Slot) :
    (d.dispatch start lights).commands =
      (List.range' start ((d.dispatch start lights).count - start)).flatMap
        (d.dispatch start lights).dispatcher.upload := by
  have hwrote := d.wroteFrom_dispatch start lights
  have hnames := d.length_rows_dispatch start lights
  rw [hwrote.commands, hwrote.count, Nat.add_sub_cancel_left]
  refine slotCommands_eq_flatMap fun j s hs => ?_
  obtain ⟨hj, -⟩ := List.getElem?_eq_some_iff.1 hs
  have hrow : start + j < (d.dispatch start lights).dispatcher.names.rows.length := by
    rw [List.length_take] at hj
    dsimp only at hnames
    split_ifs at hnames <;> omega
  rw [upload, hwrote.slots j hj, hs, NameTable.row?_of_lt _ hrow]

/-- Where a dispatch writes its lights. -/
structure Places (d : Dispatcher) (q : Dispatch) (r : Dispatched) : Prop where
  count : r.count =
    if d.maxSlots ≤ q.start then q.start else min d.maxSlots (q.start + q.lights.length)
  placed : ∀ j l, q.lights[j]? = some l → q.start + j < r.count →
    r.dispatcher.slot? (q.start + j) = some (q.slot d.shadows d.cookies l)
  kept : ∀ number, number < q.start ∨ r.count ≤ number →
    r.dispatcher.slots[number]? = d.slots[number]?
  commands : r.commands = (List.range' q.start (r.count - q.start)).flatMap r.dispatcher.upload
  named : ∀ number, ∀ c ∈ r.dispatcher.upload number,
    ∃ u value, c = .uniform ("light" ++ toString number ++ "_" ++ LightUniform.suffix u) value

/-- The slots that a dispatch writes, one for each light as long as there are slots. -/
def written : List Slot :=
  (q.lights.take (d.maxSlots - q.start)).map (q.slot d.shadows d.cookies)

theorem length_written : (d.written q).length = min (d.maxSlots - q.start) q.lights.length := by
  rw [written, List.length_map, List.length_take]

theorem getElem?_written_eq_some {j : Nat} {s : Slot} : (d.written q)[j]? = some s ↔
    j < d.maxSlots - q.start ∧ ∃ l, q.lights[j]? = some l ∧ q.slot d.shadows d.cookies l = s := by
  rw [written, List.getElem?_map, Option.map_eq_some_iff, List.getElem?_take]
  by_cases h : j < d.maxSlots - q.start <;> simp [h]

theorem wroteFrom_answer : (d.answer q).WroteFrom d q.start (d.written q) := by
  rw [answer_eq, written, List.map_take]
  exact d.wroteFrom_dispatch _ _

theorem places_answer : d.Places q (d.answer q) := by
  have hwrote := d.wroteFrom_answer q
  have hcount := hwrote.count
  rw [length_written] at hcount
  constructor
  case count =>
    rw [hcount]
    split_ifs <;> omega
  case placed =>
    intro j l hl hj
    rw [hwrote.slots j (by rw [length_written]; omega)]
    exact (d.getElem?_written_eq_some q).2 ⟨by omega, l, hl, rfl⟩
  case kept =>
    intro number hnumber
    have hslots := (setup_inj.1 (d.setup_answer q)).1
    have hslot := hwrote.others number (by rwa [← hwrote.count])
    rw [getElem?_slots, getElem?_slots, hslots, hslot]
  case commands =>
    rw [answer_eq]
    exact d.commands_dispatch _ _
  case named =>
    exact fun number c => exists_of_mem_upload _

/-- Whatever was dispatched before, each light is written to the next slot as long as there are slots,
and no other slot is touched.  Staged slots do the same, so no slot is looked for beyond the last. -/
theorem places_answer_after :
    (d.after es).setup = d.setup ∧
      (d.after es).Places q ((d.after es).answer q) ∧
      (d.staging.after? es).bind (·.answer? q) = some ((d.after es).answer q).staged :=
  ⟨d.setup_after es, (d.after es).places_answer q, d.answer?_after?_staging es q⟩

/-- Local lights go on behind a directional light, up to the last slot. -/
example :
    let lamp : Light := { kind := .omni }
    let sun := (Dispatcher.ofSlots 3 true true).answer (.directional [{ kind := .directional }] 1 {})
    let lamps := sun.dispatcher.answer
      (.locals ⟨[], [lamp, { lamp with mask := 2 }, lamp], [{ kind := .spot }]⟩ 1 {} sun.count)
    sun.count = 1 ∧ lamps.count = 3 := by
  decide +kernel

end Dispatcher

end ForwardShading
