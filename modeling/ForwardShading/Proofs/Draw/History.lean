import ForwardShading.Proofs.Draw.Submission
import ForwardShading.Proofs.Renderer

/-!
# Layers drawn before

A renderer keeps programs, light slots with the names of their uniforms, an object buffer and
counters from one layer to the next.  None of it shows in the commands of a layer: renderers that are
set up alike, whatever they have drawn, issue the same commands (`Renderer.Alike.commands_drawLayer`).
So a renderer draws a layer as if it had drawn nothing before (`Renderer.commands_drawLayer_after`).
-/

namespace ForwardShading

namespace Submission

variable (s : Submission) {progress progress' : Progress}

/-- The commands of calls depend on how the dispatcher is set up and on what is pending, and on
nothing else of what was submitted before. -/
theorem commands_calls_congr (hd : progress.dispatcher.setup = progress'.dispatcher.setup)
    (hl : progress.lightsPending = progress'.lightsPending) (cs : List DrawCall) :
    (s.calls progress cs).2 = (s.calls progress' cs).2 := by
  induction cs generalizing progress progress' with
  | nil => rfl
  | cons c cs ih =>
    have hsetup : ∀ shared, (s.call progress c shared).1.dispatcher.setup =
        (s.call progress' c shared).1.dispatcher.setup := fun shared => by
      rw [setup_call, setup_call, hd]
    rw [calls_cons, calls_cons]
    cases hp : c.variant.program with
    | error e =>
      rw [commands_call_of_error hp, commands_call_of_error hp]
      refine congrArg _ (ih (hsetup _) ?_)
      rw [lightsPending_call_of_error hp, lightsPending_call_of_error hp, hl]
    | ok p =>
      have hset : s.setCommands progress c p = s.setCommands progress' c p := by
        rw [setCommands, setCommands, hl, lightCommands_congr hd]
      rw [commands_call_of_ok hp, commands_call_of_ok hp, hset]
      refine congrArg _ (ih (hsetup _) ?_)
      rw [lightsPending_call_of_ok hp, lightsPending_call_of_ok hp]

theorem setup_calls (progress : Progress) (cs : List DrawCall) :
    (s.calls progress cs).1.dispatcher.setup = progress.dispatcher.setup := by
  induction cs generalizing progress with
  | nil => rfl
  | cons c cs ih => exact (ih _).trans setup_call

end Submission

namespace Renderer

/-- What can come before a layer. -/
inductive Event
  | draw (l : Layer)
  /-- Others prepare draws over the same programs, with lights that are split by kind. -/
  | share (p : Preparation) (split : p.lights.ByKind)
  | resetStats

/-- The renderer behind an event. -/
def step (r : Renderer) : Event → Renderer
  | .draw l => (r.drawLayer l).renderer
  | .share p _ => { r with cache := (p.run r.cache).2 }
  | .resetStats => r.resetStats

/-- A renderer after events, in their order. -/
def after (r : Renderer) (es : List Event) : Renderer :=
  es.foldl step r

theorem Reachable.step {r : Renderer} (h : r.Reachable) (e : Event) : (r.step e).Reachable := by
  cases e with
  | draw l => exact .draw l h
  | share p split => exact .share p split h
  | resetStats => exact .resetStats h

/-- Renderers that are set up alike. -/
structure Alike (r r' : Renderer) : Prop where
  config : r.config = r'.config
  environment : r.environment = r'.environment
  dispatcher : r.dispatcher.setup = r'.dispatcher.setup
  dialect : r.cache.dialect = r'.cache.dialect

namespace Alike

variable {r r' r'' : Renderer}

theorem trans (h : r.Alike r') (h' : r'.Alike r'') : r.Alike r'' :=
  ⟨h.config.trans h'.config, h.environment.trans h'.environment,
    h.dispatcher.trans h'.dispatcher, h.dialect.trans h'.dialect⟩

/-- Renderers that are set up alike make the same calls of a layer. -/
theorem calls_drawLayer (h : r.Alike r') (hr : r.Coherent) (hr' : r'.Coherent) (l : Layer) :
    (r.drawLayer l).prepared.calls = (r'.drawLayer l).prepared.calls := by
  have hprepared : ∀ r : Renderer, (r.drawLayer l).prepared =
      (r.environment.prepare l.materials r.cache l.instances
        (.ofLights l.camera.position l.lights) l.pass).1 := fun _ => rfl
  rw [hprepared, hprepared, h.environment]
  exact r'.environment.calls_prepare_congr l.materials _ l.pass SortedLights.allToldApart_byKind
    (SortedLights.byKind_ofLights _ _) hr.built hr'.built h.dialect l.instances

/-- Renderers that are set up alike draw a layer with the same commands, whatever they keep from
other layers. -/
theorem commands_drawLayer (h : r.Alike r') (hr : r.Coherent) (hr' : r'.Coherent) (l : Layer) :
    (r.drawLayer l).commands = (r'.drawLayer l).commands := by
  have hcluster : r.clusterCommands l = r'.clusterCommands l := by
    rw [clusterCommands, clusterCommands, h.config]
  have hsubmission : r.submission l = r'.submission l := by
    rw [submission, submission, h.config]
  have hsubmitted : r.submitted l = r'.submitted l := by
    have hdispatcher : (r.start l).dispatcher.setup = (r'.start l).dispatcher.setup := h.dispatcher
    rw [submitted, submitted, hsubmission, h.calls_drawLayer hr hr' l]
    exact Submission.commands_calls_congr _ hdispatcher rfl _
  rw [Renderer.commands_drawLayer, Renderer.commands_drawLayer, hcluster, hsubmitted]

end Alike

variable {r : Renderer}

/-- No event changes what a renderer is set up with. -/
theorem alike_step (hr : r.Coherent) (e : Event) : (r.step e).Alike r := by
  cases e with
  | draw l =>
    refine ⟨rfl, rfl, Submission.setup_calls _ (r.start l) _, ?_⟩
    rw [step, cache_drawLayer]
    exact (Preparation.builtFrom_run SortedLights.allToldApart_byKind (byKind_preparation _ l)
      hr.built).2
  | share p split =>
    exact ⟨rfl, rfl, rfl,
      (Preparation.builtFrom_run SortedLights.allToldApart_byKind split hr.built).2⟩
  | resetStats => exact ⟨rfl, rfl, rfl, rfl⟩

theorem alike_after (hr : r.Reachable) (es : List Event) :
    (r.after es).Reachable ∧ (r.after es).Alike r := by
  induction es generalizing r with
  | nil => exact ⟨hr, rfl, rfl, rfl, rfl⟩
  | cons e es ih =>
    obtain ⟨hafter, halike⟩ := ih (hr.step e)
    exact ⟨hafter, halike.trans (alike_step hr.coherent e)⟩

/-- A renderer draws a layer with the commands of one that has drawn nothing, whatever it has drawn
before and whoever else has used its programs. -/
theorem commands_drawLayer_after (config : RendererConfig) (textureUnits : Nat) (dialect : Dialect)
    (view : ResourceSet) (es : List Event) (l : Layer) :
    let fresh := ofConfig config textureUnits (.empty dialect) view
    ((fresh.after es).drawLayer l).commands = (fresh.drawLayer l).commands := by
  intro fresh
  have hfresh : fresh.Reachable := .start config textureUnits dialect view
  obtain ⟨hafter, halike⟩ := alike_after hfresh es
  exact halike.commands_drawLayer hafter.coherent hfresh.coherent l

end Renderer

end ForwardShading
