import Archon.Node.Register

/-! Desired state: the queue of requests and its admission, restarts of dead
keep-alive leases, and the groups whose membership the controller maintains. -/
namespace Archon.Node.Service
open Archon.Kernel Fallible

/-! The queue. -/

def enqueue (workload : WorkloadSpec) (owner : OwnerId) : ServiceM Unit := do
  let request := workload.resources
  update fun s => { s with state := { s.state with
    nextRequestId := max s.state.nextRequestId (request.id.asU64 + 1)
    queuedWorkloads := s.state.queuedWorkloads.insert request.id workload
    queue := s.state.queue ++ [⟨request, owner, s.cluster.now⟩] } }
  observe (.accepted request.id)

def submit (workload : WorkloadSpec) (owner : OwnerId) : ServiceM Unit := do
  enqueue workload owner
  persist none

/-- The next request id, taken from its counter. -/
def mintRequestId : ServiceM RequestId := do
  let id := (← self).state.nextRequestId
  updateState fun state => { state with nextRequestId := id + 1 }
  return ⟨id⟩

/-! Admission. -/

def needsKind (request : Request) (select : ResourceClass → Bool) : Bool :=
  request.needs.any fun need => select need.kind

/-- Whether a machine's runtime cannot make the workload's guarantees true. -/
def incompatible (s : NodeService) (workload : WorkloadSpec) (machine : NodeId) : Bool :=
  let request := workload.resources
  let container := workload.execution.image.any fun image => image ≠ ""
  let mode := (s.executionCapabilities[machine]?.map fun capabilities =>
    if container then capabilities.container else capabilities.process).getD .default
  let normalized := fun kind : ResourceClass =>
    (s.cluster.graph.descendants machine).any fun node => (s.cluster.graph.node node).any fun node =>
      node.kind = kind && decide (Discover.hostIdAttr ∈ node.attrs)
  let needsCpu := needsKind request fun kind => kind = .cpu
  let needsMemory := needsKind request fun kind => kind = .memory
  !mode.available || (needsCpu && !mode.cpuLimit) || (needsMemory && !mode.memoryLimit) ||
    (needsKind request Discover.isDeviceKind && !mode.deviceIsolation) ||
    (needsCpu && normalized .cpu && !mode.physicalCpuPlacement) ||
    (needsMemory && normalized .memory && !mode.numaMemoryPlacement)

/-- The machines a queued request may not use: all but the one it is pinned to,
and those that cannot run it. -/
def excludedMachines (s : NodeService) (queued : Queued) : List NodeId :=
  match s.state.queuedWorkloads[queued.request.id]? with
  | none => []
  | some workload =>
    (s.cluster.graph.nodesOfClass .machine).filter fun machine =>
      s.state.memberPins[queued.request.id]?.any (fun pinned => machine ≠ pinned) ||
        (workload.execution.hasProgram &&
          incompatible s { workload with resources := queued.request } machine)

def executionExclusions (s : NodeService) : RequestExclusions :=
  s.state.queue.foldl (fun exclusions queued =>
    match excludedMachines s queued with
    | [] => exclusions
    | machines => OrdMap.upsert exclusions queued.request.id [] (· ++ machines)) ∅

/-- Every claim has a contract of the enforcement provider on a kind it enforces. -/
def validateAllocationBindings (graph : Graph) (allocation : Allocation) : Except Error Unit :=
  allocation.claims.forM fun claim => do
    let node ← okOr (graph.node claim.node) (.unknownNode claim.node)
    let binding ← graph.claimBindingForQuantity claim.node claim.quantity
    refuseIf (binding.provider ≠ .enforce ∨
        ¬(node.kind = .cpu ∨ node.kind = .memory ∨ Discover.isDeviceKind node.kind))
      (.refused s!"no registered resource provider can enforce claims on {claim.node} ({node.kind})")

def openEnforcedBinding (lease : LeaseId) (claim : Claim) : ServiceM Unit := do
  let contract ← check ((← self).cluster.graph.claimBindingForQuantity claim.node claim.quantity)
  let binding := (← self).state.nextBinding
  updateState fun state => { state with nextBinding := binding + 1 }
  commit (.openBinding ⟨binding⟩ lease claim.node contract.provider contract.scope)

def openEnforcedBindings (lease : LeaseId) : ServiceM Unit := do
  let record ← check (okOr (← self).cluster.leases[lease]? (.unknownLease lease))
  record.allocation.claims.forM (openEnforcedBinding lease)

/-- Open the lease with the request already moved from the queue to it, since the
record of the command carries that state; a refusal moves the request back. -/
def openAdmitted (admission : Admission) (lease : LeaseId) (index : Nat) (queued : Queued)
    (workload : WorkloadSpec) : ServiceM Unit := do
  let now := (← self).cluster.now
  updateState fun state => { state with queue := state.queue.eraseIdx index }
  onRefusal
    (commit (.openLease lease admission.owner admission.allocation none
      (saturatingAdd now admission.request.lifetime) (saturatingAdd now 20)
      admission.request.priority))
    (updateState fun state => { state with
      queue := state.queue.insertIdx index queued
      requests := state.requests.erase lease
      queuedWorkloads := state.queuedWorkloads.insert admission.request.id workload })

/-- The lease an admitted request gets, opened. -/
def grantLease (admission : Admission) : ServiceM LeaseId := do
  let state := (← self).state
  let request := admission.request.id
  let lease : LeaseId := ⟨state.nextLease⟩
  observe (.leased lease)
  let workload := state.queuedWorkloads[request]?.getD (.resourceOnly admission.request)
  updateState fun state => { state with
    nextLease := state.nextLease + 1
    queuedWorkloads := state.queuedWorkloads.erase request
    requests := state.requests.insert lease (workload, admission.owner) }
  let isAdmitted := fun queued : Queued => decide (queued.request.id = request)
  match state.queue.findIdx? isAdmitted, state.queue.find? isAdmitted with
  | some index, some queued => openAdmitted admission lease index queued workload
  | _, _ => throw .panic
  return lease

/-- Admit one request and drive its lease as far as the agents' answers allow. -/
def admitOneWithPolicy (policy : AdmissionPolicy) : ServiceM (Option RequestId) := do
  let s ← self
  match s.cluster.admitBackfillWithPolicy s.state.queue policy (executionExclusions s) with
  | none => return none
  | some admission =>
    check (validateAllocationBindings s.cluster.graph admission.allocation)
    let lease ← grantLease admission
    openEnforcedBindings lease
    pump
    maybeActivate lease
    return some admission.request.id

def admitOne : ServiceM (Option RequestId) := admitOneWithPolicy .default

/-! Restarts. -/

def maxRestarts : UInt32 := 5

/-- Seconds to wait after a number of restarts: doubling, with a ceiling. -/
def backoff (count : UInt32) : UInt64 := UInt64.ofNat (min (2 ^ min count.toNat 6) 60)

/-- A fresh request for one dead keep-alive lease. The cap and the backoff belong
to the original request. -/
def restartLease (id : LeaseId) (lease : Lease) : ServiceM (Option (WorkloadSpec × OwnerId)) := do
  let s ← self
  let dead := lease.state = .failed || lease.state = .expired
  if !dead || decide (id ∈ s.state.restartHandled) then return none
  match s.state.requests[id]? with
  | none => return none
  | some (workload, owner) =>
    if !workload.keepAlive then return none
    let root := s.state.restartRoot[workload.resources.id]?.getD workload.resources.id
    let count := s.state.restartCounts[root]?.getD 0
    updateState fun state => { state with restartCounts := state.restartCounts.insert root count }
    if maxRestarts ≤ count then
      updateState fun state => { state with restartHandled := state.restartHandled.insert id () }
      return none
    let lastAt := s.state.restartLastAt[root]?.getD 0
    if s.cluster.now < saturatingAdd lastAt (backoff count) then return none
    updateState fun state => { state with
      restartCounts := state.restartCounts.insert root (count + 1)
      restartLastAt := state.restartLastAt.insert root s.cluster.now
      restartHandled := state.restartHandled.insert id () }
    let fresh ← mintRequestId
    updateState fun state => { state with restartRoot := state.restartRoot.insert fresh root }
    observe (.restarted id root fresh)
    return some (workload.withId fresh, owner)

def takeRestarts : ServiceM (List (WorkloadSpec × OwnerId)) := do
  (← self).cluster.leases.toList.filterMapM fun (id, lease) => restartLease id lease

def queueRestarts : ServiceM (List RequestId) := do
  let restarts ← takeRestarts
  restarts.forM fun (workload, owner) => enqueue workload owner
  persist none
  return restarts.map fun restart => restart.1.resources.id

/-! Service groups. -/

def registerServiceGroup (group : ServiceGroup) : ServiceM Unit := do
  checkText group.cardinality.validate
  updateState fun state => { state with
    serviceGroups := state.serviceGroups.insert group.id group }
  persist none

def scaleServiceGroup (id : String) (target : Nat) : ServiceM Nat := do
  match (← self).state.serviceGroups[id]? with
  | none => throw (.err (.refused s!"unknown service group {id}"))
  | some group =>
    match group.cardinality with
    | .elastic min _ max =>
      if target < min || max < target then
        throw (.err (.refused s!"target {target} outside elastic bounds [{min}, {max}]"))
      updateState fun state => { state with
        serviceGroups := state.serviceGroups.insert id
          { group with cardinality := .elastic min target max } }
      persist none
      return target
    | _ => throw (.err (.refused
        s!"service group {id} does not use bounded-elastic cardinality"))

/-- Members keep their leases; only future reconciliation stops. -/
def removeServiceGroup (id : String) : ServiceM Unit := do
  updateState fun state =>
    let members := (state.groupMembers[id]?.map fun members => members.keys).getD []
    { state with
      serviceGroups := state.serviceGroups.erase id
      groupMembers := state.groupMembers.erase id
      memberGroups := members.foldl (fun groups member => groups.erase member) state.memberGroups
      memberPins := members.foldl (fun pins member => pins.erase member) state.memberPins }
  persist none

def isQueued (state : ServiceState) (request : RequestId) : Bool :=
  state.queue.any fun queued => queued.request.id = request

/-- Whether a lease carries a member and can still be alive. -/
def carriesMember (s : NodeService) (request : RequestId) (lease : Lease) : Bool :=
  !isTerminal lease.state &&
    s.state.requests[lease.id]?.any fun entry => entry.1.resources.id = request

def leaseOfMember (s : NodeService) (request : RequestId) : Option LeaseId :=
  ((OrdMap.vals s.cluster.leases).find? (carriesMember s request)).map Lease.id

def memberLive (s : NodeService) (request : RequestId) : Bool :=
  isQueued s.state request ||
    ((OrdMap.vals s.state.requests).any (fun entry => entry.1.resources.id = request) &&
      (OrdMap.vals s.cluster.leases).any (carriesMember s request))

/-- Drop a queued member with its bookkeeping. -/
def cancelMember (request : RequestId) : ServiceM Unit := do
  updateState fun state => { state with
    queue := state.queue.filter fun queued => queued.request.id ≠ request
    queuedWorkloads := state.queuedWorkloads.erase request
    memberPins := state.memberPins.erase request
    memberGroups := state.memberGroups.erase request
    groupMembers := match state.memberGroups[request]? with
      | some group => state.groupMembers.modify group fun members => members.erase request
      | none => state.groupMembers }
  observe (.cancelled request)

/-- Take the dead members out of a group's index; the result is who is left and
how many were taken out. -/
def dropDead (group : ServiceGroup) : ServiceM (List RequestId × Nat) := do
  let s ← self
  let members := (s.state.groupMembers[group.id]?.map fun members => members.keys).getD []
  let live := members.filter (memberLive s)
  let died := members.length - live.length
  updateState fun state => { state with
    groupMembers := state.groupMembers.modify group.id fun _ =>
      live.foldl (fun kept id => kept.insert id ()) ∅
    memberGroups := live.foldl (fun groups id => groups.insert id group.id) state.memberGroups }
  if 0 < died then
    updateState fun state => { state with
      memberPins := state.memberPins.filter fun id _ =>
        !(state.memberGroups[id]? = some group.id && decide (id ∉ live)) }
  return (live, died)

/-- Whether a replacement is counted, and the member it submits. -/
def submitMember (group : ServiceGroup) (replaces : Bool) (pin : Option NodeId) :
    ServiceM RequestId := do
  if replaces then
    let count := (← self).state.groupRestarts[group.id]?.getD 0
    updateState fun state => { state with
      groupRestarts := state.groupRestarts.insert group.id (count + 1) }
  let id ← mintRequestId
  updateState fun state => { state with
    memberPins := match pin with
      | some machine => state.memberPins.insert id machine
      | none => state.memberPins
    memberGroups := state.memberGroups.insert id group.id
    groupMembers := OrdMap.upsert state.groupMembers group.id ∅ fun members => members.insert id () }
  enqueue (group.member id) group.owner
  observe (.enlisted group.id id replaces)
  return id

/-- The most replacements a group of some size may have, in 32 bits. -/
def replacementCap (size : Nat) : UInt32 := maxRestarts * UInt32.ofNat (max size 1)

/-- The replacements counted for a group so far; the counter starts with the
first round that asks. -/
def replacementsOf (group : ServiceGroup) : ServiceM UInt32 := do
  let count := (← self).state.groupRestarts[group.id]?.getD 0
  updateState fun state => { state with groupRestarts := state.groupRestarts.insert group.id count }
  return count

def restartDue (s : NodeService) (group : ServiceGroup) (count : UInt32) : Bool :=
  saturatingAdd (s.state.groupLastRestart[group.id]?.getD 0) (backoff count) ≤ s.cluster.now

def noteRestart (group : ServiceGroup) : ServiceM Unit :=
  update fun s => { s with state := { s.state with
    groupLastRestart := s.state.groupLastRestart.insert group.id s.cluster.now } }

/-- One member on every machine. -/
def reconcilePerMachine (group : ServiceGroup) (machines : List NodeId) (live : List RequestId)
    (died : Nat) : ServiceM (List RequestId) := do
  let pins := (← self).state.memberPins
  let covered := live.filterMap fun id => pins[id]?
  let missing := sortAsc (machines.filter fun machine => machine ∉ covered)
  if missing = [] then return []
  let count ← replacementsOf group
  if !(count < replacementCap machines.length) then return []
  if 0 < died && !restartDue (← self) group count then return []
  let submitted ← missing.mapM fun machine => submitMember group (0 < died) (some machine)
  noteRestart group
  return submitted

/-- Stop one member if some are still to be stopped; the newest come first. -/
def stopMember (progress : Nat × List RequestId) (member : RequestId) :
    ServiceM (Nat × List RequestId) := do
  let (toStop, stopped) := progress
  if toStop = 0 then return progress
  let s ← self
  match leaseOfMember s member with
  | some lease =>
    match ← tolerate (revoke lease) with
    | some _ => return (toStop - 1, stopped ++ [member])
    | none => return progress
  | none =>
    if isQueued s.state member then
      cancelMember member
      return (toStop - 1, stopped ++ [member])
    else return progress

/-- Stop the excess of a group; the result is who is left. -/
def scaleDown (group : ServiceGroup) (excess : Nat) (live : List RequestId) :
    ServiceM (List RequestId) := do
  let (_, stopped) ← (sortAsc live).reverse.foldlM stopMember (excess, [])
  updateState fun state => { state with
    groupMembers := state.groupMembers.modify group.id fun members =>
      stopped.foldl (fun members member => members.erase member) members }
  return live.filter fun member => member ∉ stopped

/-- Fill a group up. Only what stands for a dead member counts against the cap
and waits for the backoff. -/
def fillGroup (group : ServiceGroup) (desired : Nat) (live : List RequestId) (died : Nat) :
    ServiceM (List RequestId) := do
  let shortfall := desired - live.length
  if shortfall = 0 then return []
  let replacement := min shortfall died
  let growth := shortfall - replacement
  let count ← replacementsOf group
  let allowed := if count < replacementCap desired && restartDue (← self) group count then replacement else 0
  let submitted ← (List.range (allowed + growth)).mapM fun index =>
    submitMember group (index < allowed) none
  if 0 < allowed then noteRestart group
  return submitted

def reconcileGroup (machines : List NodeId) (group : ServiceGroup) : ServiceM (List RequestId) := do
  let (live, died) ← dropDead group
  match group.cardinality with
  | .perMachine => reconcilePerMachine group machines live died
  | cardinality =>
    let desired := cardinality.desiredCount machines.length
    let live ← if desired < live.length then scaleDown group (live.length - desired) live
      else pure live
    fillGroup group desired live died

/-- Bring every group to its desired membership. -/
def reconcileServiceGroups : ServiceM (List RequestId) := do
  let s ← self
  let machines := s.cluster.graph.nodesOfClass .machine
  let submitted ← (OrdMap.vals s.state.serviceGroups).mapM (reconcileGroup machines)
  persist none
  return submitted.flatten

/-! Recovery of the controller itself. -/

/-- Observations of agents do not outlive the controller that made them. -/
def restoreState (state : ServiceState) : ServiceM Unit :=
  update fun s => { s with
    state
    providerActivations := ∅
    executionStarted := ∅
    executionStopped := ∅
    heldEffects := ∅ }

end Archon.Node.Service
