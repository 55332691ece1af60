import Archon.Node.Chronicle

/-! The control plane over its controller. Clients submit workloads and services,
agents dial in, and maintenance runs now and then; each of these is a program of
the controller, and the plane itself keeps nothing that outlives the answer. -/
namespace Archon.Control
open Archon.Kernel Archon.Node Archon.Node.Service Fallible

/-! What clients send and get. -/

/-- The fields that submissions and member templates share. -/
structure WorkloadWire where
  cpus : UInt64
  memoryMib : UInt64
  lifetimeSecs : UInt64
  command : List String
  volumes : List String
  ports : List String
  graceSecs : UInt32
  image : Option String
  gpus : UInt64

structure SubmitSpec where
  owner : UInt64
  wire : WorkloadWire
  keepAlive : Bool

structure ServiceSpec where
  id : String
  owner : UInt64
  desired : UInt32
  max : Option UInt32
  min : Option UInt32
  perMachine : Bool
  wire : WorkloadWire

/-- An error is a text of the plane, or what the controller failed with. -/
inductive Reason where
  | text (reason : String)
  | failed (error : Error)

inductive ServerResponse where
  | submitted (request : RequestId) (lease : UInt64)
  | serviceRegistered (id : String) (desired : UInt32)
  | scaled (id : String) (target : UInt32)
  | revoked
  | error (reason : Reason)

/-! Compilation of a workload. -/

def parseU16 (text : String) : Option UInt16 :=
  (parseBelow (2 ^ 16) text).map UInt16.ofNat

def invalidVolume : String := "invalid volume spec (expected host_path:mount_path)"

def invalidPort : String := "invalid port spec (expected [host:]container)"

def parseVolume (spec : String) : Except String StorageMount := do
  let (hostPath, mountPath) ← okOr (splitOnce ':' spec) invalidVolume
  refuseIf (hostPath = "" ∨ mountPath = "") invalidVolume
  return ⟨hostPath, mountPath⟩

def parsePort (spec : String) : Except String PortPublish :=
  match splitOnce ':' spec with
  | some (host, container) => do
    let containerPort ← okOr (parseU16 container) invalidPort
    let hostPort ← okOr (parseU16 host) invalidPort
    return ⟨containerPort, some hostPort⟩
  | none => do
    let containerPort ← okOr (parseU16 spec) invalidPort
    return ⟨containerPort, none⟩

/-- The bytes of some mebibytes, in 64 bits. -/
def memoryBytes (memoryMib : UInt64) : Except String UInt64 :=
  if memoryMib.toNat * 2 ^ 20 < 2 ^ 64 then .ok (memoryMib * 1048576)
  else .error "memory_mib overflows"

def compileNeeds (wire : WorkloadWire) : Except String (List Need) := do
  let cpu : Need := ⟨.cpu, qty .count (max wire.cpus 1), []⟩
  let memory : List Need ← if 0 < wire.memoryMib then do
      let bytes ← memoryBytes wire.memoryMib
      pure [⟨.memory, qty .bytes bytes, []⟩]
    else pure []
  let gpu : List Need := if 0 < wire.gpus then [⟨.gpu, qty .count wire.gpus, []⟩] else []
  return cpu :: memory ++ gpu

/-- The process executor has no mounts and no ports of its own to offer. -/
def compileWorkload (id : RequestId) (wire : WorkloadWire) : Except String WorkloadSpec := do
  refuseIf (wire.command = [] ∧ wire.image = none) "empty command"
  let needs ← compileNeeds wire
  let storage ← wire.volumes.mapM parseVolume
  let ports ← wire.ports.mapM parsePort
  refuseIf (wire.image = none ∧ (storage ≠ [] ∨ ports ≠ []))
    "volumes and published ports need an OCI image (--image)"
  return {
    resources := {
      id, requestClass := .batch, needs, topology := [], preferences := [], data := []
      lifetime := max wire.lifetimeSecs 1, priority := 1, machineLocal := true }
    execution := ⟨wire.command, wire.image, storage, ports, wire.graceSecs⟩
    keepAlive := false }

/-! Requests of clients. -/

/-- Go on after an error with what it was; a panic is not caught. -/
def caught {α : Type} (program : ServiceM α) : ServiceM (Except Error α) := fun w =>
  match program w with
  | .ok a w' => .ok (.ok a) w'
  | .error (.err e) w' => .ok (.error e) w'
  | .error .panic w' => .error .panic w'

/-- The newest lease, or 0 when there is none. -/
def leaseOfRequest (s : NodeService) : UInt64 :=
  s.cluster.leases.keys.foldl (fun newest lease => max newest lease.asU64) 0

/-- The workload of a submission under the next request id. -/
def compileSubmission (s : NodeService) (spec : SubmitSpec) : Except String WorkloadSpec := do
  refuseIf (spec.wire.command = []) "empty command"
  let workload ← compileWorkload ⟨s.state.nextRequestId⟩ spec.wire
  return { workload with keepAlive := spec.keepAlive }

def submit (spec : SubmitSpec) : ServiceM ServerResponse := do
  let s ← self
  let id : RequestId := ⟨s.state.nextRequestId⟩
  match compileSubmission s spec with
  | .error reason => return .error (.text reason)
  | .ok workload =>
    Service.submit workload ⟨spec.owner⟩
    match ← caught admitOne with
    | .ok (some _) => return .submitted id (leaseOfRequest (← self))
    | .ok none => return .submitted id 0
    | .error e => return .error (.failed e)

/-- One admission for each of some requests; whatever fails is left to later rounds. -/
def admitFor (requests : List RequestId) : ServiceM Unit :=
  requests.forM fun _ => do
    let _ ← caught admitOne

def ServiceSpec.cardinality (spec : ServiceSpec) : Cardinality :=
  if spec.perMachine then .perMachine
  else match spec.min, spec.max with
    | some min, some max => .elastic min.toNat spec.desired.toNat max.toNat
    | _, _ => .fixed spec.desired.toNat

def submitService (spec : ServiceSpec) : ServiceM ServerResponse := do
  match spec.cardinality.validate with
  | .error reason => return .error (.text reason)
  | .ok _ =>
    match compileWorkload ⟨0⟩ spec.wire with
    | .error reason => return .error (.text reason)
    | .ok template =>
      match ← caught (registerServiceGroup ⟨spec.id, ⟨spec.owner⟩, spec.cardinality, template⟩) with
      | .error e => return .error (.failed e)
      | .ok _ =>
        admitFor (← reconcileServiceGroups)
        return .serviceRegistered spec.id (if spec.perMachine then 0 else spec.desired)

def scaleService (id : String) (target : UInt32) : ServiceM ServerResponse := do
  match ← caught (scaleServiceGroup id target.toNat) with
  | .error e => return .error (.failed e)
  | .ok applied =>
    admitFor (← reconcileServiceGroups)
    return .scaled id (UInt32.ofNat applied)

def revokeLease (lease : UInt64) : ServiceM ServerResponse := do
  match ← caught (revoke ⟨lease⟩) with
  | .error e => return .error (.failed e)
  | .ok _ => return .revoked

inductive ClientRequest where
  | submit (spec : SubmitSpec)
  | submitService (spec : ServiceSpec)
  | scaleService (id : String) (target : UInt32)
  | revoke (lease : UInt64)

def handle : ClientRequest → ServiceM ServerResponse
  | .submit spec => submit spec
  | .submitService spec => submitService { spec with wire := { spec.wire with gpus := 0 } }
  | .scaleService id target => scaleService id target
  | .revoke lease => revokeLease lease

def tickAndDrive (now : UInt64) (arrivals : List (List (Tag × AgentReply))) : ServiceM Unit := do
  let _ ← caught (tick now)
  let _ ← caught (drive arrivals)

/-- A client is answered over the clock of the moment and the agents' answers so far. -/
def tickAndHandle (now : UInt64) (arrivals : List (List (Tag × AgentReply)))
    (request : ClientRequest) : ServiceM ServerResponse := do
  tickAndDrive now arrivals
  handle request

/-! Maintenance. -/

/-- Admit until nothing more places or an admission fails, for so many passes. -/
def drainQueue : Nat → ServiceM Unit
  | 0 => return
  | passes + 1 => do
    match ← caught admitOne with
    | .ok (some _) => drainQueue passes
    | _ => return

/-- A pass that goes on takes a request off the queue. -/
def maintain (now : UInt64) : ServiceM Unit := do
  let _ ← caught (tick now)
  let _ ← caught collectCompletions
  drainQueue ((← self).state.queue.length + 1)
  let unreachable := (← self).unreachable
  update fun s => { s with unreachable := [] }
  unreachable.forM fun machine => do
    let _ ← caught (markMachineUnhealthy machine)
  probeAgents
  admitFor (← queueRestarts)
  admitFor (← reconcileServiceGroups)

/-! Runs. -/

/-- What happens to the plane. A client that only asks still moves the clock. -/
inductive Event where
  | ask (now : UInt64) (arrivals : List (List (Tag × AgentReply)))
  | client (now : UInt64) (arrivals : List (List (Tag × AgentReply))) (request : ClientRequest)
  | maintain (now : UInt64)
  | advance (arrivals : List (List (Tag × AgentReply)))
  | dialIn (description : MachineDescription) (capabilities : ExecutionCapabilities)
  /-- An answer arrives, asked for or not. -/
  | post (tag : Tag) (reply : AgentReply)
  /-- The worker of a machine takes no more calls. -/
  | loseAgent (machine : NodeId)

def Event.program : Event → ServiceM Unit
  | .ask now arrivals => tickAndDrive now arrivals
  | .client now arrivals request => discard (tickAndHandle now arrivals request)
  | .maintain now => Control.maintain now
  | .advance arrivals => discard (caught (drive arrivals))
  | .dialIn description capabilities =>
    discard (caught (registerAgentWithCapabilities description capabilities))
  | .post tag reply => Operation.program (.post tag reply)
  | .loseAgent machine => Operation.program (.loseAgent machine)

/-- A plane that boots on empty files, takes events, and boots again on what its
files were given last or, after a compaction, on what it held. A panic ends the
process and leaves its files. The ids of its requests and leases have not run out. -/
inductive Reachable : World → Prop where
  | boot : Reachable (Process.new true).world
  | step (h : Reachable w) (event : Event) (halive : ∀ u, event.program w ≠ .error .panic u)
      (hroom : ¬Exhausted (after event.program w).trace) : Reachable (after event.program w)
  | compacted (h : Reachable w) :
      Reachable (Process.boot w.service.cluster w.service.state true).world
  | recovered (h : Reachable w) (event : Event) (hroom : ¬Exhausted (after event.program w).trace)
      (hentry : entry ∈ (after event.program w).trace) (hseen : entry.seen = .persisted command) :
      Reachable (Process.boot entry.service.cluster entry.service.state true).world

end Archon.Control
