import ForwardShading.Draw.Environment

/-!
# Prepared draws

The visible instances of a layer as draw calls: each with its program and with what has changed
since the call before. Calls between two changes form a batch.
-/

namespace ForwardShading

/-- The draw of an instance. -/
structure DrawCall where
  /-- The place of the instance among the visible ones. -/
  index : Nat
  object : Instance
  variant : Variant VariantKey
  /-- Whether the material has to be set before the draw. -/
  newMaterial : Bool
  /-- Whether lights have to be dispatched before the draw. -/
  maskChanged : Bool

/-- A run of calls with the same material and lights. -/
structure Batch where
  start : Nat
  length : Nat
  deriving DecidableEq, Repr

/-- The calls of a layer. -/
structure PreparedDraws where
  calls : List DrawCall
  /-- The number of instances that have no call. -/
  skipped : Nat

namespace DrawCall

/-- Whether something changes in front of a call. -/
def startsBatch (c : DrawCall) : Bool :=
  c.newMaterial || c.maskChanged

end DrawCall

namespace PreparedDraws

/-- Runs one after the other with the given lengths. -/
def runs (start : Nat) : List Nat → List Batch
  | [] => []
  | n :: ns => ⟨start, n⟩ :: runs (start + n) ns

/-- The batches of the calls: each begins at the first call or where something changes. -/
def batches (p : PreparedDraws) : List Batch :=
  runs 0 ((p.calls.splitBy fun _ next => !next.startsBatch).map List.length)

/-- Whether the call behind the `n`-th uses the same material. -/
def nextSharesMaterial (p : PreparedDraws) (n : Nat) : Bool :=
  p.calls[n + 1]?.any (!·.newMaterial)

end PreparedDraws

namespace Environment

/-- Makes the calls of instances that come after `previous`. -/
def callsAfter (e : Environment) (materials : MaterialTable) (lights : SortedLights)
    (pass : ShaderPass) (cache : VariantCache VariantKey) (previous : Option Instance) :
    List (Instance × Nat) → List DrawCall × VariantCache VariantKey
  | [] => ([], cache)
  | (i, index) :: rest =>
    if i.isEmpty then
      e.callsAfter materials lights pass cache previous rest
    else
      let (variant, cache) := cache.getOrBuild (e.key materials lights pass i) fun _ =>
        e.describe materials lights pass i
      let call : DrawCall :=
        { index, object := i, variant
          newMaterial :=
            !previous.any fun p => p.material = i.material ∧ p.shaderFlags = i.shaderFlags
          maskChanged := !previous.any fun p => p.mask = i.mask }
      let (calls, cache) := e.callsAfter materials lights pass cache (some i) rest
      (call :: calls, cache)

/-- Prepares the draws of visible instances. Instanced draws of nothing are left out. -/
def prepare (e : Environment) (materials : MaterialTable) (cache : VariantCache VariantKey)
    (instances : List Instance) (lights : SortedLights) (pass : ShaderPass) :
    PreparedDraws × VariantCache VariantKey :=
  let (calls, cache) := e.callsAfter materials lights pass cache none instances.zipIdx
  (⟨calls, instances.countP (·.isEmpty)⟩, cache)

end Environment

end ForwardShading
