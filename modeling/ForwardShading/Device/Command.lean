import ForwardShading.Device.FixedFunction
import ForwardShading.Device.UniformValue
import ForwardShading.Program.Basic
import ForwardShading.Std140.Buffer

/-!
# Device commands

What a renderer asks of the device, in the order in which it asks.
-/

namespace ForwardShading

/-- A buffer of the device. -/
structure BufferHandle where
  id : UInt64
  deriving DecidableEq, Repr

/-- A command: it sets one piece of state, or draws with the state that is set. -/
inductive Command
  | shader (p : Program)
  | uniform (name : String) (value : UniformValue)
  | vertexBuffer (slot : Nat) (buffer : BufferHandle)
  | bindGroup (tier : Tier) (group : BindGroup)
  | uniformBuffer (tier : Tier) (layout : Std140.Layout) (data : Std140.Buffer)
  | blend (state : Option BlendState)
  | depth (state : DepthState)
  | stencil (state : Option StencilState)
  | cull (mode : CullMode)
  | draw (primitive : Primitive) (indices : Option BufferHandle) (instances : UInt32)
  deriving DecidableEq

namespace Command

/-- Whether a command draws. -/
def isDraw : Command → Bool
  | draw .. => true
  | _ => false

/-- The value that a command gives the named uniform. -/
def valueOf? (name : String) : Command → Option UniformValue
  | uniform n value => if n = name then some value else none
  | _ => none

/-- The last value that commands give the named uniform. -/
def lastValue? (name : String) (cs : List Command) : Option UniformValue :=
  cs.reverse.findSome? (valueOf? name)

/-- The place of the first command that sets the named uniform. -/
def firstPosition? (name : String) (cs : List Command) : Option Nat :=
  cs.findIdx? fun c => (c.valueOf? name).isSome

/-- The places of the draws among commands. -/
def drawPositions (cs : List Command) : List Nat :=
  cs.zipIdx.filterMap fun (c, n) => if c.isDraw then some n else none

/-- The names of the programs that commands set, in order. -/
def shaderNames (cs : List Command) : List String :=
  cs.filterMap fun | shader p => some p.name | _ => none

end Command

end ForwardShading
