import ForwardShading.Proofs.Draw.Prepared
import Mathlib.Data.List.Forall2

/-!
# Preparations over one cache

Any number of environments may prepare draws over one cache, in any order.  Where their light sets are
told apart by the fingerprints that are part of the keys, no call ever gets a program that was built
for another draw: its program, or its error, is what building the call's own description gives
(`Preparation.answers_runAll`).
-/

namespace ForwardShading

/-- What a preparation is for: an environment, and the layer that it is asked to draw. -/
structure Preparation where
  environment : Environment
  materials : MaterialTable
  instances : List Instance
  lights : SortedLights
  pass : ShaderPass

namespace Preparation

/-- The description of the program that draws an instance. -/
def describe (p : Preparation) (i : Instance) : Definition × Surroundings :=
  p.environment.describe p.materials p.lights p.pass i

/-- Prepares the draws over a cache. -/
def run (p : Preparation) (cache : VariantCache VariantKey) :
    PreparedDraws × VariantCache VariantKey :=
  p.environment.prepare p.materials cache p.instances p.lights p.pass

/-- Runs preparations in order, each over the cache that the one before has left. -/
def runAll (cache : VariantCache VariantKey) :
    List Preparation → List PreparedDraws × VariantCache VariantKey
  | [] => ([], cache)
  | p :: ps => ((p.run cache).1 :: (runAll (p.run cache).2 ps).1, (runAll (p.run cache).2 ps).2)

/-- The calls that a preparation makes in a dialect: one for each instance with something to draw,
with the program of the instance's own description. -/
structure Answers (dialect : Dialect) (p : Preparation) (drawn : PreparedDraws) : Prop where
  objects : drawn.calls.map (·.object) = p.instances.filter (!·.isEmpty)
  index : ∀ c ∈ drawn.calls, p.instances[c.index]? = some c.object
  program : ∀ c ∈ drawn.calls, c.variant.program =
    Program.build dialect (p.describe c.object).1 (p.describe c.object).2

theorem objects_run (p : Preparation) (cache : VariantCache VariantKey) :
    (p.run cache).1.calls.map (·.object) = p.instances.filter (!·.isEmpty) :=
  p.environment.map_object_prepare p.materials p.lights p.pass cache p.instances

section Run

variable {family : SortedLights → Prop} (hfamily : SortedLights.AllToldApart family)
  {cache : VariantCache VariantKey}

include hfamily

theorem answers_run {p : Preparation} (hp : family p.lights)
    (h : cache.BuiltFrom (Environment.Describes family)) :
    p.Answers cache.dialect (p.run cache).1 where
  objects := p.objects_run cache
  index _ hc := Environment.getElem?_index_of_mem_prepare _ _ _ _ _ _ hc
  program c hc := by
    rw [Environment.variant_of_mem_prepare _ _ _ _ hfamily hp h _ hc]
    rfl

theorem builtFrom_run {p : Preparation} (hp : family p.lights)
    (h : cache.BuiltFrom (Environment.Describes family)) :
    (p.run cache).2.BuiltFrom (Environment.Describes family) ∧
      (p.run cache).2.dialect = cache.dialect :=
  Environment.builtFrom_prepare _ _ _ _ hfamily hp h _

/-- Over a cache of programs that were built for light sets of a family, preparations with light sets of
that family give every call the program of its own description. -/
theorem answers_runAll (h : cache.BuiltFrom (Environment.Describes family)) {ps : List Preparation}
    (hps : ∀ p ∈ ps, family p.lights) :
    List.Forall₂ (Answers cache.dialect) ps (runAll cache ps).1 := by
  induction ps generalizing cache with
  | nil => exact .nil
  | cons p ps ih =>
    obtain ⟨hp, hps⟩ := List.forall_mem_cons.1 hps
    obtain ⟨hb, hd⟩ := builtFrom_run hfamily hp h
    refine .cons (answers_run hfamily hp h) ?_
    rw [← hd]
    exact ih hb hps

end Run

end Preparation

end ForwardShading
