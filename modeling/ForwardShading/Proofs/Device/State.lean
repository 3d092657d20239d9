import ForwardShading.Device.Command
import Mathlib.Data.List.Basic
import Mathlib.Logic.Function.Basic

/-!
# Device states

A device keeps, for each of its registers, the last command that set it.  `DeviceState.run` is the
state after a list of commands and `DeviceState.draws` lists the draws among them, each with the
state that it sees.  Both are determined by the last command for each register (`lastFor?`), so two
lists that agree there cannot be told apart by any draw.
-/

namespace ForwardShading

/-- A part of a device's state, which one command sets as a whole. -/
inductive Register
  | shader
  | uniform (name : String)
  | vertexBuffer (slot : Nat)
  | bindGroup (tier : Tier)
  | uniformBuffer (tier : Tier)
  | blend
  | depth
  | stencil
  | cull
  deriving DecidableEq, Repr

/-- The register that a command sets.  A draw sets none. -/
def Command.register? : Command → Option Register
  | .shader _ => some .shader
  | .uniform name _ => some (.uniform name)
  | .vertexBuffer slot _ => some (.vertexBuffer slot)
  | .bindGroup tier _ => some (.bindGroup tier)
  | .uniformBuffer tier _ _ => some (.uniformBuffer tier)
  | .blend _ => some .blend
  | .depth _ => some .depth
  | .stencil _ => some .stencil
  | .cull _ => some .cull
  | .draw .. => none

/-- The registers that commands set, in order. -/
def registers (cs : List Command) : List Register :=
  cs.filterMap Command.register?

/-- The last command that sets a register. -/
def lastFor? (r : Register) (cs : List Command) : Option Command :=
  cs.reverse.find? fun c => c.register? = some r

/-- The last command for each register, where there was one. -/
abbrev DeviceState := Register → Option Command

theorem Command.register?_eq_none_iff {c : Command} : c.register? = none ↔ c.isDraw := by
  cases c <;> simp [Command.register?, Command.isDraw]

@[simp]
theorem registers_append (as bs : List Command) :
    registers (as ++ bs) = registers as ++ registers bs :=
  List.filterMap_append

theorem mem_registers {r : Register} {cs : List Command} :
    r ∈ registers cs ↔ ∃ c ∈ cs, c.register? = some r :=
  List.mem_filterMap

theorem lastFor?_append (r : Register) (as bs : List Command) :
    lastFor? r (as ++ bs) = (lastFor? r bs).or (lastFor? r as) := by
  unfold lastFor?
  rw [List.reverse_append, List.find?_append]

theorem lastFor?_singleton (r : Register) (c : Command) :
    lastFor? r [c] = if c.register? = some r then some c else none := by
  by_cases h : c.register? = some r <;> simp [lastFor?, h]

theorem lastFor?_eq_none_iff {r : Register} {cs : List Command} :
    lastFor? r cs = none ↔ r ∉ registers cs := by
  simp [lastFor?, mem_registers]

theorem mem_registers_of_lastFor?_eq_some {r : Register} {c : Command} {cs : List Command}
    (h : lastFor? r cs = some c) : r ∈ registers cs := by
  by_contra hr
  rw [lastFor?_eq_none_iff.2 hr] at h
  cases h

/-- The only command for a register is the last one. -/
theorem lastFor?_eq_some_of_unique {r : Register} {c : Command} {cs : List Command} (hc : c ∈ cs)
    (hr : c.register? = some r) (h : ∀ d ∈ cs, d.register? = some r → d = c) :
    lastFor? r cs = some c := by
  cases hd : lastFor? r cs with
  | none => exact absurd (mem_registers.2 ⟨c, hc, hr⟩) (lastFor?_eq_none_iff.1 hd)
  | some d =>
    have hmem : d ∈ cs := List.mem_reverse.1 (List.mem_of_find?_eq_some hd)
    rw [h d hmem (by simpa using List.find?_some hd)]

namespace DeviceState

/-- The state behind a command: its register holds it. -/
def apply (δ : DeviceState) (c : Command) : DeviceState :=
  match c.register? with
  | some r => Function.update δ r (some c)
  | none => δ

/-- The state behind commands. -/
def run (δ : DeviceState) (cs : List Command) : DeviceState :=
  cs.foldl apply δ

/-- The draws among commands, each with the state that it sees. -/
def draws (δ : DeviceState) : List Command → List (DeviceState × Command)
  | [] => []
  | c :: cs => (if c.isDraw then [(δ, c)] else []) ++ draws (δ.apply c) cs

@[simp]
theorem run_nil (δ : DeviceState) : δ.run [] = δ :=
  rfl

@[simp]
theorem run_append (δ : DeviceState) (as bs : List Command) :
    δ.run (as ++ bs) = (δ.run as).run bs :=
  List.foldl_append

theorem apply_eq (δ : DeviceState) (c : Command) (r : Register) :
    δ.apply c r = if c.register? = some r then some c else δ r := by
  unfold apply
  cases h : c.register? with
  | none => simp
  | some r' =>
    by_cases hr : r' = r
    · subst hr
      simp
    · show Function.update δ r' (some c) r = _
      rw [Function.update_of_ne (Ne.symm hr), if_neg (by simpa using hr)]

/-- A register holds the last command for it, or what it held before. -/
theorem run_eq (δ : DeviceState) (cs : List Command) (r : Register) :
    δ.run cs r = (lastFor? r cs).or (δ r) := by
  induction cs generalizing δ with
  | nil => rfl
  | cons c cs ih =>
    have step : δ.run (c :: cs) r = (δ.apply c).run cs r := rfl
    rw [step, ih, ← List.singleton_append, lastFor?_append, lastFor?_singleton, Option.or_assoc,
      apply_eq]
    by_cases h : c.register? = some r
    · rw [if_pos h, if_pos h, Option.some_or]
    · rw [if_neg h, if_neg h, Option.none_or]

theorem run_eq_of_notMem (δ : DeviceState) {cs : List Command} {r : Register}
    (h : r ∉ registers cs) : δ.run cs r = δ r := by
  rw [run_eq, lastFor?_eq_none_iff.2 h, Option.none_or]

/-- Commands leave a state as it is when it already holds the last one for each register. -/
theorem run_eq_self_iff {δ : DeviceState} {cs : List Command} :
    δ.run cs = δ ↔ ∀ r c, lastFor? r cs = some c → δ r = some c := by
  constructor
  · intro h r c hc
    rw [← h, run_eq, hc, Option.some_or]
  · intro h
    funext r
    rw [run_eq]
    cases hc : lastFor? r cs with
    | none => rfl
    | some c => rw [h r c hc, Option.some_or]

theorem run_run_self (δ : DeviceState) (cs : List Command) : (δ.run cs).run cs = δ.run cs := by
  refine run_eq_self_iff.2 fun r c hc => ?_
  rw [run_eq, hc, Option.some_or]

/-- What commands have settled stays settled while others set other registers. -/
theorem run_run_of_disjoint {δ : DeviceState} {cs ds : List Command} (h : δ.run cs = δ)
    (hd : (registers cs).Disjoint (registers ds)) : (δ.run ds).run cs = δ.run ds := by
  refine run_eq_self_iff.2 fun r c hc => ?_
  rw [run_eq_of_notMem δ (hd (mem_registers_of_lastFor?_eq_some hc))]
  exact run_eq_self_iff.1 h r c hc

/-- Commands that have been run are settled behind others that set other registers. -/
theorem run_run_run_of_disjoint (δ : DeviceState) {cs ds : List Command}
    (hd : (registers cs).Disjoint (registers ds)) :
    ((δ.run cs).run ds).run cs = (δ.run cs).run ds :=
  run_run_of_disjoint (run_run_self δ cs) hd

theorem draws_append (δ : DeviceState) (as bs : List Command) :
    δ.draws (as ++ bs) = δ.draws as ++ (δ.run as).draws bs := by
  induction as generalizing δ with
  | nil => rfl
  | cons a as ih =>
    have step : δ.run (a :: as) = (δ.apply a).run as := rfl
    simp only [List.cons_append, draws, ih, step, List.append_assoc]

theorem draws_eq_nil {cs : List Command} (h : ∀ c ∈ cs, c.isDraw = false) (δ : DeviceState) :
    δ.draws cs = [] := by
  induction cs generalizing δ with
  | nil => rfl
  | cons c cs ih =>
    rw [draws, h c List.mem_cons_self, ih fun d hd => h d (List.mem_cons_of_mem c hd)]
    rfl

/-- A draw behind commands that set its state sees all of them. -/
theorem draws_append_draw {cs : List Command} {c : Command} (h : ∀ c ∈ cs, c.isDraw = false)
    (hc : c.isDraw) (δ : DeviceState) : δ.draws (cs ++ [c]) = [(δ.run cs, c)] := by
  rw [draws_append, draws_eq_nil h, List.nil_append]
  simp [draws, hc]

theorem map_snd_draws (δ : DeviceState) (cs : List Command) :
    (δ.draws cs).map Prod.snd = cs.filter (·.isDraw) := by
  induction cs generalizing δ with
  | nil => rfl
  | cons c cs ih =>
    rw [draws, List.map_append, ih, List.filter_cons]
    split_ifs <;> rfl

/-- A draw sees the state behind all commands in front of it. -/
theorem getElem?_draws (δ : DeviceState) (front : List Command) {c : Command} (hc : c.isDraw)
    (back : List Command) :
    (δ.draws (front ++ c :: back))[front.countP (·.isDraw)]? = some (δ.run front, c) := by
  have hlength : (δ.draws front).length = front.countP (·.isDraw) := by
    rw [← List.length_map Prod.snd, map_snd_draws, List.countP_eq_length_filter]
  rw [draws_append, ← hlength, List.getElem?_append_right (Nat.le_refl _), Nat.sub_self, draws,
    if_pos hc]
  rfl

theorem run_draw {c : Command} (hc : c.isDraw) (δ : DeviceState) : δ.run [c] = δ := by
  have h : δ.apply c = δ := by
    unfold apply
    rw [Command.register?_eq_none_iff.2 hc]
  exact h

end DeviceState

end ForwardShading
