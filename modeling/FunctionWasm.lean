import FunctionWasm.Cache.Compiles
import FunctionWasm.Cache.Keyed
import FunctionWasm.Cache.Load
import FunctionWasm.Cache.MemoryTier
import FunctionWasm.Cache.SingleFlight
import FunctionWasm.Cache.Sweep
import FunctionWasm.Compose.Fence
import FunctionWasm.Egress.Coverage
import FunctionWasm.Egress.Credentials
import FunctionWasm.Egress.Prefix
import FunctionWasm.Egress.RateLimit
import FunctionWasm.Engine.Returns
import FunctionWasm.Foundation.Base64
import FunctionWasm.Foundation.CedarText
import FunctionWasm.Foundation.Decimal
import FunctionWasm.Foundation.Delivery
import FunctionWasm.Foundation.Memo
import FunctionWasm.Foundation.Program
import FunctionWasm.Foundation.Replay
import FunctionWasm.Foundation.Utf8
import FunctionWasm.Limits.Duration
import FunctionWasm.Limits.Quantity
import FunctionWasm.Limits.Timeout
import FunctionWasm.Memory.Governance
import FunctionWasm.Policy.DialRules
import FunctionWasm.Policy.Fences
import FunctionWasm.Policy.Generated
import FunctionWasm.Policy.HostScope
import FunctionWasm.Policy.Kinds
import FunctionWasm.Policy.Repository
import FunctionWasm.Registry.Authentication
import FunctionWasm.Registry.DockerConfig
import FunctionWasm.Registry.Extraction
import FunctionWasm.Registry.Faithful
import FunctionWasm.Registry.Push
import FunctionWasm.Require.Fence
import FunctionWasm.Runner.Admission
import FunctionWasm.Runner.Agreement
import FunctionWasm.Runner.Handle
import FunctionWasm.Runner.Mediation
import FunctionWasm.Runner.Offline
import FunctionWasm.Runner.Withheld
import FunctionWasm.Scheduler.Deadline
import FunctionWasm.Scheduler.Fairness
import FunctionWasm.Scheduler.StepSlots
import FunctionWasm.Signature.Envelope
import FunctionWasm.Signature.Gate
import FunctionWasm.Signature.PerRepository
import FunctionWasm.Signature.Refresh
import FunctionWasm.Signature.Repeated
import FunctionWasm.Signature.Rotation
import FunctionWasm.Signature.Soundness
import FunctionWasm.Source.Canonical
import FunctionWasm.Source.CleanPath
import FunctionWasm.Source.ConfinedPath
import FunctionWasm.Source.Confinement
import FunctionWasm.Source.Inspect
import FunctionWasm.Source.Published
import FunctionWasm.Source.Repinned
import FunctionWasm.Source.Segment
import FunctionWasm.Source.Served
import FunctionWasm.Source.Transparency
import FunctionWasm.Validate.Manifest
import FunctionWasm.Validate.MinRuntime
import FunctionWasm.Validate.RoundTrip
import FunctionWasm.Validate.SandboxEnv
import FunctionWasm.Wire.Completion
import FunctionWasm.Wire.Noninterference
import FunctionWasm.Wire.Noop
import FunctionWasm.Wire.Offsets
