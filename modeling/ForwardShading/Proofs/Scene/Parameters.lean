import ForwardShading.Scene.Material
import ForwardShading.Proofs.Device.State
import ForwardShading.Proofs.OrderedMap

/-!
# Parameters on the device

Setting parameters puts each of them in the register of its name (`Parameters.lastFor?_commands`).
Setting those with given names again does the same for these names
(`Parameters.lastFor?_commandsFor`), and both set no other register.
-/

namespace ForwardShading.Parameters

variable {ps : Parameters} {names : List String} {r : Register}

theorem mem_registers_commands : r ∈ registers ps.commands ↔ ∃ n ∈ ps.keys, r = .uniform n := by
  constructor
  · intro h
    obtain ⟨c, hc, hr⟩ := mem_registers.1 h
    obtain ⟨⟨n, v⟩, he, rfl⟩ := List.mem_map.1 hc
    exact ⟨n, OrderedMap.mem_keys.2 ⟨v, he⟩, (Option.some.inj hr).symm⟩
  · rintro ⟨n, hn, rfl⟩
    obtain ⟨v, he⟩ := OrderedMap.mem_keys.1 hn
    exact mem_registers.2 ⟨.uniform n v, List.mem_map.2 ⟨(n, v), he, rfl⟩, rfl⟩

/-- Commands that set a parameter, and nothing else of its name, leave its value there. -/
theorem lastFor?_eq_map_get? {n : String} {cs : List Command}
    (only : ∀ c ∈ cs, c.register? = some (.uniform n) → ∃ v, ps.get? n = some v ∧ c = .uniform n v)
    (all : ∀ v, ps.get? n = some v → .uniform n v ∈ cs) :
    lastFor? (.uniform n) cs = (ps.get? n).map (.uniform n) := by
  cases h : ps.get? n with
  | none =>
    refine lastFor?_eq_none_iff.2 fun hr => ?_
    obtain ⟨c, hc, hr⟩ := mem_registers.1 hr
    obtain ⟨v, hv, -⟩ := only c hc hr
    rw [h] at hv
    cases hv
  | some v =>
    refine lastFor?_eq_some_of_unique (all v h) rfl fun c hc hr => ?_
    obtain ⟨v', hv, rfl⟩ := only c hc hr
    rw [h] at hv
    cases hv
    rfl

theorem lastFor?_commands (ps : Parameters) (n : String) :
    lastFor? (.uniform n) ps.commands = (ps.get? n).map (.uniform n) := by
  refine lastFor?_eq_map_get? (fun c hc hr => ?_) fun v hv => ?_
  · obtain ⟨⟨n', v⟩, he, rfl⟩ := List.mem_map.1 hc
    cases hr
    exact ⟨v, OrderedMap.get?_eq_some_iff.2 he, rfl⟩
  · exact List.mem_map.2 ⟨(n, v), OrderedMap.get?_eq_some_iff.1 hv, rfl⟩

theorem mem_commandsFor {c : Command} :
    c ∈ ps.commandsFor names ↔ ∃ n ∈ names, ∃ v, ps.get? n = some v ∧ c = .uniform n v := by
  simp only [commandsFor, List.mem_filterMap, Option.map_eq_some_iff, @eq_comm _ c]

theorem mem_names_of_mem_registers (h : r ∈ registers (ps.commandsFor names)) :
    ∃ n ∈ names, r = .uniform n := by
  obtain ⟨c, hc, hr⟩ := mem_registers.1 h
  obtain ⟨n, hn, v, -, rfl⟩ := mem_commandsFor.1 hc
  exact ⟨n, hn, (Option.some.inj hr).symm⟩

theorem lastFor?_commandsFor (ps : Parameters) {n : String} (hn : n ∈ names) :
    lastFor? (.uniform n) (ps.commandsFor names) = (ps.get? n).map (.uniform n) := by
  refine lastFor?_eq_map_get? (fun c hc hr => ?_) fun v hv => ?_
  · obtain ⟨n', -, v, hv, rfl⟩ := mem_commandsFor.1 hc
    cases hr
    exact ⟨v, hv, rfl⟩
  · exact mem_commandsFor.2 ⟨n, hn, v, hv, rfl⟩

end ForwardShading.Parameters
