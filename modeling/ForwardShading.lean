import ForwardShading.Binding.BindGroup
import ForwardShading.Binding.ObjectLayout
import ForwardShading.Binding.ResourceSet
import ForwardShading.Binding.Tier
import ForwardShading.Device.Command
import ForwardShading.Device.FixedFunction
import ForwardShading.Device.UniformValue
import ForwardShading.Draw.Environment
import ForwardShading.Draw.Prepared
import ForwardShading.Draw.Submission
import ForwardShading.Frame.Action
import ForwardShading.Frame.Pass
import ForwardShading.Frame.Schedule
import ForwardShading.Glsl.Declaration
import ForwardShading.Glsl.Define
import ForwardShading.Glsl.NumericType
import ForwardShading.Glsl.Precision
import ForwardShading.Glsl.Sampler
import ForwardShading.Glsl.Scan
import ForwardShading.Glsl.Stage
import ForwardShading.Glsl.Statement
import ForwardShading.Glsl.Version
import ForwardShading.Light.Basic
import ForwardShading.Light.Dispatch
import ForwardShading.Light.Order
import ForwardShading.Light.Slot
import ForwardShading.Light.Uniforms
import ForwardShading.OrderedMap
import ForwardShading.Program.Basic
import ForwardShading.Program.Block
import ForwardShading.Program.Definition
import ForwardShading.Program.Interface
import ForwardShading.Program.VariantCache
import ForwardShading.Renderer
import ForwardShading.Scene.Camera
import ForwardShading.Scene.Instance
import ForwardShading.Scene.Material
import ForwardShading.ShaderError
import ForwardShading.Single.Matrix
import ForwardShading.Single.Scalar
import ForwardShading.Single.Vector
import ForwardShading.Std140.Bounded
import ForwardShading.Std140.Buffer
import ForwardShading.Std140.Layout
import ForwardShading.Text.Numeral
import ForwardShading.Text.Search
import ForwardShading.Text.Words
import ForwardShading.Vertex.Element
import ForwardShading.Vertex.Semantic
import ForwardShading.Proofs.Device.State
import ForwardShading.Proofs.Draw.Environment
import ForwardShading.Proofs.Binding.ObjectLayout
import ForwardShading.Proofs.Draw.Batching
import ForwardShading.Proofs.Draw.LightCounts
import ForwardShading.Proofs.Draw.ObjectBuffer
import ForwardShading.Proofs.Glsl.Dissection
import ForwardShading.Proofs.Text.Search
import ForwardShading.Proofs.Glsl.Lines
import ForwardShading.Proofs.Glsl.Splice
import ForwardShading.Proofs.Glsl.Define
import ForwardShading.Proofs.Program.Interface
import ForwardShading.Proofs.Draw.Variants
import ForwardShading.Proofs.Draw.History
import ForwardShading.Proofs.Std140.WriteOrder
import ForwardShading.Proofs.Frame.Blocks
import ForwardShading.Proofs.Frame.Coverage
import ForwardShading.Proofs.Frame.Postprocess
import ForwardShading.Proofs.Frame.Shadows
import ForwardShading.Proofs.Frame.Cuts
import ForwardShading.Proofs.Frame.Captures
import ForwardShading.Proofs.Program.Block
import ForwardShading.Proofs.Program.Linkage
import ForwardShading.Proofs.Draw.BindingPoints
import ForwardShading.Proofs.Draw.Skipped
import ForwardShading.Proofs.Program.Dialects
import ForwardShading.Proofs.Glsl.Declaration
import ForwardShading.Proofs.Program.Identifiers
import ForwardShading.Proofs.Program.Declared
import ForwardShading.Proofs.Light.Importance
import ForwardShading.Proofs.Program.Requests
import ForwardShading.Proofs.Binding.Resolution
import ForwardShading.Proofs.Keys
import ForwardShading.Proofs.FirstFault
import ForwardShading.Proofs.Text.Words
import ForwardShading.Proofs.Std140.Ends
import ForwardShading.Proofs.Binding.Faults
import ForwardShading.Proofs.Program.Violations
import ForwardShading.Proofs.Std140.Removal
import ForwardShading.Proofs.Binding.AddedSet
import ForwardShading.Proofs.Draw.Parameters
import ForwardShading.Proofs.Draw.Batches
import ForwardShading.Proofs.Program.AttributeOrder
import ForwardShading.Proofs.Frame.Greedy
import ForwardShading.Proofs.Std140.Ideal
import ForwardShading.Proofs.Std140.Components
import ForwardShading.Proofs.Glsl.Seams
import ForwardShading.Proofs.Glsl.Rescan
import ForwardShading.Proofs.Glsl.CursorRun
import ForwardShading.Proofs.Glsl.Version
import ForwardShading.Proofs.Glsl.Spelling
import ForwardShading.Proofs.Binding.Merging
import ForwardShading.Proofs.Program.Locations
import ForwardShading.Proofs.Glsl.Insertion
import ForwardShading.Proofs.Draw.Statistics
import ForwardShading.Proofs.Light.Runs
import ForwardShading.Proofs.Light.Leftovers
import ForwardShading.Proofs.Light.Uniforms
import ForwardShading.Proofs.Draw.Collisions
