import ForwardShading.Light.Order
import ForwardShading.Light.Uniforms

/-!
# Light dispatch

Lights are written to numbered slots, directional ones first. Lights that find no slot are dropped.
Slots and the names of their uniforms are kept from one dispatch to the next. A slot is cleared before
a light is written to it, and what is then in it is uploaded.
-/

namespace ForwardShading

/-- A bounded number of light slots, with what was last written to each. -/
structure Dispatcher where
  maxSlots : Nat
  /-- Whether lights keep their shadows. -/
  shadows : Bool
  /-- Whether lights keep their cookies. -/
  cookies : Bool
  slots : Vector (Option Slot) maxSlots
  names : NameTable

/-- What a dispatch did: the slots after it, the number of slots in use, and its commands. -/
structure Dispatched where
  dispatcher : Dispatcher
  count : Nat
  commands : List Command

namespace Dispatcher

/-- A dispatcher that has written nothing. It has at least one slot. -/
def ofSlots (slots : Nat) (shadows cookies : Bool) : Dispatcher where
  maxSlots := max slots 1
  shadows
  cookies
  slots := Vector.replicate _ none
  names := .empty

/-- What was last written to a slot. -/
def slot? (d : Dispatcher) (number : Nat) : Option Slot :=
  (d.slots[number]?).join

/-- The record of a slot. There is none beyond the last slot. -/
def packed? (d : Dispatcher) (number : Nat) : Option PackedSlot :=
  (d.slots[number]?).map fun s => (s.map (·.packed)).getD .zero

/-- The groups of data that were last written to a slot, in the order of their bits. -/
def fields (d : Dispatcher) (number : Nat) : List SlotField :=
  SlotField.all.filter fun f => (d.slot? number).any f.isIn

/-- Clears a slot for a light of the given color, and makes names for it if there are none. -/
def beginSlot (d : Dispatcher) (number : Nat) (color : Vec3) : Dispatcher :=
  { d with
    slots := d.slots.setIfInBounds number (some { color })
    names := d.names.growTo number }

/-- Writes the groups of a light to a slot. -/
def writeSlot (d : Dispatcher) (number : Nat) (light : Slot) : Dispatcher :=
  { d with
    slots := d.slots.setIfInBounds number ((d.slot? number).map (·.writeGroups light)) }

/-- Sets the uniforms of what is in a slot. -/
def upload (d : Dispatcher) (number : Nat) : List Command :=
  match d.slot? number, d.names.row? number with
  | some s, some names => s.commands names
  | _, _ => []

/-- Writes lights to the slots from `number` on, each to the next one. -/
def dispatch (d : Dispatcher) (number : Nat) : List Slot → Dispatched
  | [] => ⟨d, number, []⟩
  | light :: lights =>
    if number < d.maxSlots then
      let d := (d.beginSlot number light.color).writeSlot number light
      let rest := d.dispatch (number + 1) lights
      { rest with commands := d.upload number ++ rest.commands }
    else
      d.dispatch number lights

/-- Writes the directional lights that affect a mask, in their order. -/
def dispatchDirectional (d : Dispatcher) (ls : List Light) (mask : UInt32) (camera : Camera) :
    Dispatched :=
  d.dispatch 0 ((ls.filter (·.affects mask)).map (Slot.directional d.shadows camera))

/-- Writes the local lights that affect a mask, omni lights first. Local lights are the same for every
camera. -/
def dispatchLocal (d : Dispatcher) (ls : SortedLights) (mask : UInt32) (_camera : Camera)
    (start : Nat) : Dispatched :=
  d.dispatch start ((ls.locals.filter (·.affects mask)).map (Slot.ofLight d.shadows d.cookies))

/-- Writes directional lights, then local ones behind them unless lighting is clustered. -/
def dispatchAll (d : Dispatcher) (ls : SortedLights) (mask : UInt32) (camera : Camera)
    (clustered : Bool) : Dispatched :=
  let first := d.dispatchDirectional ls.directional mask camera
  if clustered then
    first
  else
    let second := first.dispatcher.dispatchLocal ls mask camera first.count
    { second with commands := first.commands ++ second.commands }

end Dispatcher

end ForwardShading
