import ForwardShading.Proofs.Draw.Submission
import ForwardShading.Proofs.Renderer
import ForwardShading.Proofs.Text.Numeral

/-!
# Numbers of lights

A program is specialised for the lights of its layer, of each kind as many as there are
(`Environment.definesCounts_defines`).  A dispatch writes of them those that affect the mask of an
instance and find a slot.  At each draw the dispatch in effect is one for the mask of its own
instance (`Submission.forall₂_dispatches`), so the two numbers agree exactly where all lights of the
layer affect that mask and find a slot (`Renderer.draws_lightCounts`).
-/

namespace ForwardShading

/-- The defines that tell the numbers of lights are there once. -/
structure DefinesCounts (defines : List Glsl.Define) (counts : Nat × Nat × Nat) : Prop where
  directional : defines.filter (·.name = "DIRECTIONAL_LIGHT_COUNT") =
    [⟨"DIRECTIONAL_LIGHT_COUNT", toString counts.1⟩]
  omni : defines.filter (·.name = "OMNI_LIGHT_COUNT") =
    [⟨"OMNI_LIGHT_COUNT", toString counts.2.1⟩]
  spot : defines.filter (·.name = "SPOT_LIGHT_COUNT") =
    [⟨"SPOT_LIGHT_COUNT", toString counts.2.2⟩]

theorem DefinesCounts.unique {defines : List Glsl.Define} {m n : Nat × Nat × Nat}
    (hm : DefinesCounts defines m) (hn : DefinesCounts defines n) : m = n := by
  have hd := hm.directional.symm.trans hn.directional
  have ho := hm.omni.symm.trans hn.omni
  have hs := hm.spot.symm.trans hn.spot
  simp only [List.cons.injEq, Glsl.Define.mk.injEq, Text.toString_inj, true_and, and_true]
    at hd ho hs
  exact Prod.ext hd (Prod.ext ho hs)

theorem ShaderPass.define_name_ne (pass : ShaderPass) {name : String}
    (hforward : name ≠ "FORWARD_PASS") (hdepth : name ≠ "DEPTH_PASS")
    (hshadow : name ≠ "SHADOW_PASS") (hcustom : name.toList.head? ≠ some 'C') :
    pass.define.name ≠ name := by
  rintro rfl
  cases pass with
  | forward => exact hforward rfl
  | depth => exact hdepth rfl
  | shadow => exact hshadow rfl
  | custom id =>
    refine hcustom ?_
    rw [define, String.toList_append]
    rfl

/-- Without clustered lighting, a program is specialised for all lights of its layer. -/
theorem Environment.definesCounts_defines {e : Environment} (he : e.clustered = false)
    (lights : SortedLights) (pass : ShaderPass) (flags : UInt64) :
    DefinesCounts (e.defines lights pass flags) lights.counts := by
  have hd := pass.define_name_ne (by decide : "DIRECTIONAL_LIGHT_COUNT" ≠ "FORWARD_PASS")
    (by decide) (by decide) (by decide)
  have ho := pass.define_name_ne (by decide : "OMNI_LIGHT_COUNT" ≠ "FORWARD_PASS")
    (by decide) (by decide) (by decide)
  have hs := pass.define_name_ne (by decide : "SPOT_LIGHT_COUNT" ≠ "FORWARD_PASS")
    (by decide) (by decide) (by decide)
  by_cases hf : flags = 0
  · constructor <;> simp [defines, he, hf, hd, ho, hs, SortedLights.counts]
  · constructor <;> simp [defines, he, hf, hd, ho, hs, SortedLights.counts]

/-- A dispatch that wrote the given lights and no others: directional lights to the first slots, then
omni lights, then spot lights. -/
structure Dispatched.Wrote (x : Dispatched) (d : Dispatcher) (camera : Camera)
    (written : SortedLights) : Prop where
  count : x.count = written.all.length
  commands : x.commands = slotCommands 0 (written.slots d.shadows d.cookies camera)

theorem Dispatcher.wrote_dispatchAll {d d' : Dispatcher} (h : d.setup = d'.setup)
    (ls : SortedLights) (mask : UInt32) (camera : Camera) :
    (d.dispatchAll ls mask camera false).Wrote d' camera (ls.fitting d'.maxSlots mask) := by
  obtain ⟨hcount, hcommands⟩ := d.dispatchAll_spec ls mask camera false
  obtain ⟨hslots, hshadows, hcookies⟩ := setup_inj.1 h
  rw [writtenSlots_false, hslots, hshadows, hcookies] at hcount hcommands
  exact ⟨hcount.trans (SortedLights.length_slots _ _ _ _), hcommands⟩

namespace Submission

variable (s : Submission)

/-- For each call with a program, the last dispatch before its draw; `last` is the last one before
all calls. -/
def dispatches (progress : Progress) (last : Option Dispatched) :
    List DrawCall → List (Option Dispatched)
  | [] => []
  | c :: cs =>
    let next := (s.call progress c (cs.head?.any (!·.newMaterial))).1
    match c.variant.program with
    | .error _ => dispatches next last cs
    | .ok _ =>
      let last := (s.dispatch? progress c).or last
      last :: dispatches next last cs

/-- A dispatch for a mask, by a dispatcher with the given setup. -/
def LitFor (setup : Nat × Bool × Bool) (mask : UInt32) (x : Option Dispatched) : Prop :=
  ∃ d : Dispatcher, d.setup = setup ∧ x = some (d.dispatchAll s.lights mask s.camera s.clustered)

variable {s} {progress : Progress} {setup : Nat × Bool × Bool} {last : Option Dispatched}
  {c : DrawCall}

/-- A call dispatches its lights, or finds them dispatched. -/
theorem litFor_dispatch? (hs : progress.dispatcher.setup = setup)
    (h : c.maskChanged = false → progress.lightsPending = false →
      s.LitFor setup c.object.mask last) :
    s.LitFor setup c.object.mask ((s.dispatch? progress c).or last) := by
  by_cases hl : (c.maskChanged || progress.lightsPending) = true
  · exact ⟨progress.dispatcher, hs, by rw [dispatch?, if_pos hl, Option.some_or]⟩
  · rw [dispatch?, if_neg hl, Option.none_or]
    rw [Bool.not_eq_true, Bool.or_eq_false_iff] at hl
    exact h hl.1 hl.2

/-- At each draw the last dispatch is one for the mask of the drawn instance. -/
theorem forall₂_dispatches {previous : Option DrawCall} {cs : List DrawCall}
    (hl : Linked previous cs) (hs : progress.dispatcher.setup = setup)
    (h : ∀ c ∈ cs.head?, c.maskChanged = false → progress.lightsPending = false →
      s.LitFor setup c.object.mask last) :
    List.Forall₂ (fun c x => s.LitFor setup c.1.object.mask x) (drawnCalls cs)
      (s.dispatches progress last cs) := by
  induction cs generalizing previous progress last with
  | nil => exact .nil
  | cons c cs ih =>
    have hnext : ∀ next ∈ cs.head?, Follows (some c) next := Linked.follows hl.2
    cases hp : c.variant.program with
    | error e =>
      simp only [dispatches, hp, drawnCalls_cons_of_error hp]
      refine ih hl.2 (setup_call.trans hs) fun next hn hmask hpending => ?_
      rw [lightsPending_call_of_error hp, Bool.or_eq_false_iff] at hpending
      rw [← (hnext next hn).mask_eq hmask]
      exact h c rfl hpending.2 hpending.1
    | ok p =>
      have hlit := litFor_dispatch? hs (h c rfl)
      simp only [dispatches, hp, drawnCalls_cons_of_ok hp]
      refine .cons hlit (ih hl.2 (setup_call.trans hs) fun next hn hmask _ => ?_)
      rw [← (hnext next hn).mask_eq hmask]
      exact hlit

end Submission

namespace Renderer

variable (r : Renderer) (l : Layer)

/-- The lights of a layer as its renderer sorts them. -/
def lights : SortedLights :=
  .ofLights l.camera.position l.lights

/-- What the program of a call is specialised by. -/
def definesFor (c : DrawCall) : List Glsl.Define :=
  r.environment.defines (lights l) l.pass c.object.shaderFlags

/-- The dispatches of lights in a drawn layer, one entry for each call. -/
def dispatches : List (Option Dispatched) :=
  (r.submission l).dispatches (r.start l) none (r.drawLayer l).prepared.calls

/-- The dispatch in effect wrote as many lights of each kind as the defines of the program tell. -/
def MatchesDefines (c : DrawCall × Program) (x : Option Dispatched) : Prop :=
  ∃ w written, x = some w ∧ w.Wrote r.dispatcher l.camera written ∧
    DefinesCounts (r.definesFor l c.1) written.counts

/-- What lights a draw: its program is specialised for all lights of the layer, and the dispatch in
effect wrote those of them that affect the mask of the instance and find a slot. -/
structure IsLit (c : DrawCall × Program) (x : Option Dispatched) : Prop where
  program : c.1.variant.program = Program.build r.cache.dialect
    ((l.materials c.1.object.material).variantDefinition (r.definesFor l c.1))
    ⟨[r.environment.view, (l.materials c.1.object.material).resources], r.environment.elements⟩
  defines : DefinesCounts (r.definesFor l c.1) (lights l).counts
  wrote : ∃ w, x = some w ∧ w.Wrote r.dispatcher l.camera
    ((lights l).fitting r.dispatcher.maxSlots c.1.object.mask)
  counts : ((lights l).fitting r.dispatcher.maxSlots c.1.object.mask).counts ≤ (lights l).counts
  agrees : r.MatchesDefines l c x ↔
    (∀ light ∈ l.lights, light.affects c.1.object.mask) ∧ l.lights.length ≤ r.dispatcher.maxSlots

variable {r l}

/-- The numbers agree exactly where all lights of the layer affect the mask and find a slot. -/
theorem matchesDefines_iff {c : DrawCall × Program} {w : Dispatched}
    (hdefines : DefinesCounts (r.definesFor l c.1) (lights l).counts)
    (hw : w.Wrote r.dispatcher l.camera
      ((lights l).fitting r.dispatcher.maxSlots c.1.object.mask)) :
    r.MatchesDefines l c (some w) ↔
      (∀ light ∈ l.lights, light.affects c.1.object.mask) ∧
        l.lights.length ≤ r.dispatcher.maxSlots := by
  have hperm : (lights l).all.Perm l.lights := SortedLights.all_ofLights_perm _ _
  have hiff := (lights l).counts_fitting_eq_iff r.dispatcher.maxSlots c.1.object.mask
  simp only [hperm.mem_iff, hperm.length_eq] at hiff
  rw [← hiff]
  constructor
  · rintro ⟨w', written, hw', hwrote, hcounts⟩
    cases hw'
    have hsame : written.counts = (lights l).counts := hcounts.unique hdefines
    have hlength := hwrote.count.symm.trans hw.count
    have hle := (lights l).counts_fitting_le r.dispatcher.maxSlots c.1.object.mask
    rw [SortedLights.length_all, SortedLights.length_all, hsame] at hlength
    obtain ⟨hd, hrest⟩ := hle
    obtain ⟨ho, hs⟩ := hrest
    exact Prod.ext (by omega) (Prod.ext (by omega) (by omega))
  · intro h
    exact ⟨w, _, rfl, hw, h ▸ hdefines⟩

/-- At each draw of a layer the last dispatch is one for the mask of its instance. -/
theorem forall₂_litFor (r : Renderer) (l : Layer) :
    List.Forall₂ (fun c x => (r.submission l).LitFor r.dispatcher.setup c.1.object.mask x)
      (Submission.drawnCalls (r.drawLayer l).prepared.calls) (r.dispatches l) := by
  refine Submission.forall₂_dispatches (r.linked_drawLayer l) rfl fun c hfirst hmask _ => ?_
  rw [((r.linked_drawLayer l).follows c hfirst).maskChanged_of_none] at hmask
  cases hmask

theorem Coherent.forall₂_isLit (hr : r.Coherent) (hc : r.config.clusteredLighting = false) :
    List.Forall₂ (r.IsLit l) (Submission.drawnCalls (r.drawLayer l).prepared.calls)
      (r.dispatches l) := by
  have hmem : ∀ c ∈ Submission.drawnCalls (r.drawLayer l).prepared.calls,
      c.1 ∈ (r.drawLayer l).prepared.calls := fun c h => (Submission.mem_drawnCalls.1 h).1
  refine ((List.forall₂_and_left _ _).2 ⟨hmem, r.forall₂_litFor l⟩).imp fun c x => ?_
  rintro ⟨hcall, d, hsetup, rfl⟩
  have hdefines : DefinesCounts (r.definesFor l c.1) (lights l).counts :=
    Environment.definesCounts_defines (hr.clustered.trans hc) _ _ _
  have hclustered : (r.submission l).clustered = false := hc
  rw [hclustered]
  have hw := Dispatcher.wrote_dispatchAll hsetup (lights l) c.1.object.mask l.camera
  exact ⟨hr.program_eq hcall, hdefines, ⟨_, rfl, hw⟩, (lights l).counts_fitting_le _ _,
    matchesDefines_iff hdefines hw⟩

/-- Without clustered lighting, each draw of a layer finds dispatched, of the lights that its program
is specialised for, those that affect its mask and find a slot.  The numbers agree exactly where
these are all. -/
theorem draws_lightCounts (hr : r.Reachable) (hc : r.config.clusteredLighting = false) (l : Layer) :
    List.Forall₂ (r.IsLit l) (Submission.drawnCalls (r.drawLayer l).prepared.calls)
      (r.dispatches l) :=
  hr.coherent.forall₂_isLit hc

theorem draws_lightCounts_masked :
    initial.Reachable ∧ initial.config.clusteredLighting = false ∧
      List.Forall₂ (initial.IsLit .masked)
        (Submission.drawnCalls (initial.drawLayer .masked).prepared.calls)
        (initial.dispatches .masked) :=
  ⟨reachable_initial, rfl, draws_lightCounts reachable_initial rfl .masked⟩

/-- A light that does not affect the mask of an instance is counted in its program all the same. -/
theorem not_matchesDefines_masked :
    ¬ List.Forall₂ (initial.MatchesDefines .masked)
      (Submission.drawnCalls (initial.drawLayer .masked).prepared.calls)
      (initial.dispatches .masked) := by
  intro h
  have hlit := reachable_initial.coherent.forall₂_isLit (l := .masked) rfl
  have hmask : (Submission.drawnCalls (initial.drawLayer .masked).prepared.calls).head?.map
      (fun c => c.1.object.mask) = some 1 := by
    decide +kernel
  cases hc : Submission.drawnCalls (initial.drawLayer .masked).prepared.calls with
  | nil =>
    rw [hc] at hmask
    cases hmask
  | cons c cs =>
    rw [hc] at h hlit hmask
    obtain ⟨x, xs, hx, -, hxs⟩ := List.forall₂_cons_left_iff.1 h
    rw [hxs] at hlit
    have hall := ((List.forall₂_cons.1 hlit).1.agrees.1 hx).1
    have hone : c.1.object.mask = 1 := Option.some.inj hmask
    rw [hone] at hall
    have haffects := hall _ List.mem_cons_self
    exact absurd haffects (by decide)

end Renderer

end ForwardShading
