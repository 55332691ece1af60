import Archon.Node.Discover
import Archon.Node.Provider
import Archon.Node.Workload

/-! What the controller and its agents say to each other: the requests, the
answers, the tags that route answers back, and the evidence a returning machine
has given in its current session. -/
namespace Archon.Node
open Archon.Kernel

structure RuntimeCapabilities where
  available : Bool
  cpuLimit : Bool
  memoryLimit : Bool
  deviceIsolation : Bool
  physicalCpuPlacement : Bool
  numaMemoryPlacement : Bool
  deriving DecidableEq

def RuntimeCapabilities.default : RuntimeCapabilities := ⟨false, false, false, false, false, false⟩

structure ExecutionCapabilities where
  process : RuntimeCapabilities
  container : RuntimeCapabilities
  deriving DecidableEq

structure DeviceAccess where
  id : String
  dev : String
  paths : List String
  cdi : Option String
  deriving DecidableEq

def DeviceAccess.fromAttrs (attrs : Attrs) : Option DeviceAccess :=
  match attrs["dev"]? with
  | none => none
  | some dev =>
    if dev = "" then none
    else some {
      id := attrs["id"]?.getD dev
      dev
      paths := (attrs["access"]?.bind Json.strings).getD []
      cdi := attrs["cdi"]? }

/-- Logical CPU numbers and NUMA numbers a lease is pinned to. -/
structure CpuPlacement where
  cpus : List UInt32
  mems : List UInt32
  deriving DecidableEq

structure LeaseLimits where
  cpuCount : UInt64
  memoryBytes : UInt64
  placement : CpuPlacement
  deriving DecidableEq

/-- One provider endpoint as the agent reports it. -/
structure EnumeratedEndpoint where
  node : UInt64
  provider : UInt64
  scope : BindingScope
  binding : Option UInt64
  isOpen : Bool
  acceptedFence : UInt64
  phase : EndpointPhase
  deriving DecidableEq

/-- Which step of a binding's life a request drives. -/
inductive EffectPhase where
  | prepare | activate | release | fence
  deriving DecidableEq

def EffectPhase.index : EffectPhase → Nat
  | .prepare => 0
  | .activate => 1
  | .release => 2
  | .fence => 3

def EffectPhase.isTeardown : EffectPhase → Bool
  | .release | .fence => true
  | .prepare | .activate => false

/-- The generation a binding request is about. -/
structure BindingCall where
  binding : UInt64
  lease : UInt64
  node : UInt64
  provider : UInt64
  scope : BindingScope
  session : UInt64
  fence : UInt64
  epoch : UInt64
  deriving DecidableEq

/-- The requests the controller's tagged calls carry. -/
inductive AgentRequest where
  | binding (phase : EffectPhase) (call : BindingCall)
  | startExecution (lease session epoch : UInt64) (command : List String) (limits : LeaseLimits)
      (image : String) (storage : List StorageMount) (ports : List PortPublish) (graceSecs : UInt32)
      (devices : List DeviceAccess)
  | stopExecution (lease session epoch : UInt64)
  | status (lease : UInt64)
  | enumerateBindings
  deriving DecidableEq

inductive AgentResponse where
  | capabilities (capabilities : ExecutionCapabilities)
  | welcome (description : MachineDescription)
  | prepared (binding handle : UInt64)
  | activated (binding : UInt64)
  | executionStarted (lease : UInt64)
  | executionFailed (lease : UInt64) (reason : String)
  | executionStopped (lease : UInt64)
  | executionStopFailed (lease : UInt64) (reason : String)
  | released (binding : UInt64)
  | fenced (binding : UInt64)
  | failed (binding : UInt64) (reason : String)
  | running (lease : UInt64) (running : Bool) (exitCode : Option Int32)
  | logs (lease : UInt64) (output : String)
  | bindingsEnumerated (endpoints : List EnumeratedEndpoint)
  deriving DecidableEq

/-! How an answer is shown. -/

section Debug
open DebugText

def RuntimeCapabilities.debug (self : RuntimeCapabilities) : String := record "RuntimeCapabilities" [
  ("available", toString self.available),
  ("cpu_limit", toString self.cpuLimit),
  ("memory_limit", toString self.memoryLimit),
  ("device_isolation", toString self.deviceIsolation),
  ("physical_cpu_placement", toString self.physicalCpuPlacement),
  ("numa_memory_placement", toString self.numaMemoryPlacement)]

def ExecutionCapabilities.debug (self : ExecutionCapabilities) : String := record "ExecutionCapabilities" [
  ("process", self.process.debug),
  ("container", self.container.debug)]

def EnumeratedEndpoint.debug (self : EnumeratedEndpoint) : String := record "EnumeratedEndpoint" [
  ("node", toString self.node),
  ("provider", toString self.provider),
  ("scope", self.scope.debugName),
  ("binding", optional toString self.binding),
  ("open", toString self.isOpen),
  ("accepted_fence", toString self.acceptedFence),
  ("phase", self.phase.debugName)]

def AgentResponse.debug : AgentResponse → String
  | .capabilities found => record "Capabilities" [("capabilities", found.debug)]
  | .welcome description => record "Welcome" [
      ("instance_id", quoted description.instanceId),
      ("name", quoted description.name),
      ("cpus", toString description.cpus),
      ("memory_bytes", toString description.memoryBytes),
      ("host_nodes", listed HostNodeSpec.debug description.hostNodes),
      ("devices", listed DeviceSpec.debug description.devices)]
  | .prepared binding handle => record "Prepared"
      [("binding", toString binding), ("handle", toString handle)]
  | .activated binding => record "Activated" [("binding", toString binding)]
  | .executionStarted lease => record "ExecutionStarted" [("lease", toString lease)]
  | .executionFailed lease reason => record "ExecutionFailed"
      [("lease", toString lease), ("reason", quoted reason)]
  | .executionStopped lease => record "ExecutionStopped" [("lease", toString lease)]
  | .executionStopFailed lease reason => record "ExecutionStopFailed"
      [("lease", toString lease), ("reason", quoted reason)]
  | .released binding => record "Released" [("binding", toString binding)]
  | .fenced binding => record "Fenced" [("binding", toString binding)]
  | .failed binding reason => record "Failed" [("binding", toString binding), ("reason", quoted reason)]
  | .running lease alive exitCode => record "Running" [
      ("lease", toString lease),
      ("running", toString alive),
      ("exit_code", optional (fun code => toString code.toInt) exitCode)]
  | .logs lease output => record "Logs" [("lease", toString lease), ("output", quoted output)]
  | .bindingsEnumerated endpoints => record "BindingsEnumerated"
      [("endpoints", listed EnumeratedEndpoint.debug endpoints)]

end Debug

/-- An answer, or the reason why the call failed. -/
abbrev AgentReply := Except String AgentResponse

/-- Identifies an outstanding call. -/
inductive Tag where
  | binding (binding : BindingId) (session fence : UInt64) (phase : EffectPhase)
  | executionStart (lease : LeaseId) (machine : NodeId) (session : UInt64)
  | executionStop (lease : LeaseId) (machine : NodeId) (session : UInt64)
  | status (lease : LeaseId) (machine : NodeId) (session : UInt64)
  | enumerate (machine : NodeId) (session : UInt64)
  | strayFence (machine : NodeId) (session : UInt64) (node : NodeId) (provider : ProviderId)
      (scope : BindingScope) (binding : BindingId) (fence : UInt64)
  | probe (machine : NodeId)
  deriving DecidableEq

/-- The session a tag must still be in for its answer to count as evidence. -/
def Tag.evidenceSession : Tag → Option (NodeId × UInt64)
  | .status _ machine session => some (machine, session)
  | .enumerate machine session => some (machine, session)
  | .strayFence machine session _ _ _ _ _ => some (machine, session)
  | _ => none

/-! Evidence of one returning session. -/

structure MemberStatus where
  running : Bool
  exitCode : Option Int32
  deriving DecidableEq

def MemberStatus.unknown : MemberStatus := ⟨false, none⟩

def sameGeneration (endpoint : EnumeratedEndpoint) (binding : Binding) : Bool :=
  endpoint.binding = some binding.id.asU64 && endpoint.node = binding.node.asU64 &&
    endpoint.provider = binding.provider.asU64 && endpoint.scope = binding.scope &&
    endpoint.acceptedFence = binding.fence

structure MachineRecovery where
  session : UInt64
  /-- `none` until the member's status query of this session answers. -/
  members : OrdMap LeaseId (Option MemberStatus)
  /-- `none` until a valid enumeration of this session. -/
  endpoints : Option (List EnumeratedEndpoint)
  /-- Stray closes that are not acknowledged yet. -/
  strayFences : Finset Tag
  deriving DecidableEq

namespace MachineRecovery

def new (session : UInt64) : MachineRecovery := ⟨session, ∅, none, ∅⟩

def endpointsSettled (self : MachineRecovery) : Bool :=
  self.endpoints.isSome && decide (self.strayFences = ∅)

def complete (self : MachineRecovery) : Bool := self.members.isEmpty && self.endpointsSettled

/-- The reports that speak about a binding: its own id, and for an exclusive
binding every report on its endpoint. -/
def candidates (endpoints : List EnumeratedEndpoint) (binding : Binding) : List EnumeratedEndpoint :=
  endpoints.filter fun endpoint => endpoint.binding = some binding.id.asU64 ||
    (binding.scope = .exclusive && endpoint.scope = .exclusive &&
      endpoint.node = binding.node.asU64 && endpoint.provider = binding.provider.asU64)

/-- A duplicate or conflicting report is no proof. -/
def proves (self : MachineRecovery) (binding : Binding) : Bool :=
  match self.endpoints with
  | none => false
  | some endpoints =>
    match candidates endpoints binding with
    | [endpoint] => binding.state = .active && sameGeneration endpoint binding && endpoint.isOpen &&
        endpoint.phase = .active
    | _ => false

end MachineRecovery
end Archon.Node
