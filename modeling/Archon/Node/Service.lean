import Archon.Node.Protocol

/-! The controller of a set of machines: the cluster's transition function, the
calls to agents it has in flight and what they have proven, and the workload
intent above it. Programs run on a world that also keeps what an observer sees,
each observation with the service as it was at that moment. A program that fails
keeps what it wrote; arithmetic overflow and `unreachable!` end the process. -/
namespace Archon.Node
open Archon.Kernel Fallible Std

/-- One machine's share of a lease. -/
structure Member where
  lease : LeaseId
  machine : NodeId
  deriving DecidableEq

instance : Ord Member := ⟨compareLex (compareOn Member.lease) (compareOn Member.machine)⟩

instance : TransOrd Member :=
  inferInstanceAs (TransCmp (compareLex (compareOn Member.lease) (compareOn Member.machine)))

instance : LawfulEqOrd Member where
  eq_of_compare {a b} h := by
    have hlex : compareLex (compareOn Member.lease) (compareOn Member.machine) a b = .eq := h
    simp only [compareLex_eq_eq, compareOn, LawfulEqCmp.compare_eq_iff_eq] at hlex
    cases a
    cases b
    simpa only [Member.mk.injEq] using hlex

/-- A teardown, or any effect, that waits for the proof of a stop. -/
structure Held where
  binding : BindingId
  phase : EffectPhase
  deriving DecidableEq

theorem EffectPhase.index_injective {a b : EffectPhase} (h : a.index = b.index) : a = b := by
  cases a <;> cases b <;> first | rfl | simp [EffectPhase.index] at h

instance : Ord Held := ⟨compareLex (compareOn Held.binding) (compareOn fun held => held.phase.index)⟩

instance : TransOrd Held :=
  inferInstanceAs (TransCmp
    (compareLex (compareOn Held.binding) (compareOn fun held : Held => held.phase.index)))

instance : LawfulEqOrd Held where
  eq_of_compare {a b} h := by
    have hlex : compareLex (compareOn Held.binding) (compareOn fun held => held.phase.index) a b = .eq := h
    simp only [compareLex_eq_eq, compareOn, LawfulEqCmp.compare_eq_iff_eq] at hlex
    obtain ⟨hbinding, hphase⟩ := hlex
    cases a
    cases b
    simp only [Held.mk.injEq]
    exact ⟨hbinding, EffectPhase.index_injective hphase⟩

/-- A member under one agent session. -/
structure MemberSession where
  lease : LeaseId
  machine : NodeId
  session : UInt64
  deriving DecidableEq

/-- A binding under one agent session and fence. -/
structure Generation where
  binding : BindingId
  session : UInt64
  fence : UInt64
  deriving DecidableEq

inductive RecoveryEvent where
  | preparingLeaseFailed (lease : LeaseId) (machine : NodeId)
  | terminalBindingFenced (lease : LeaseId) (machine : NodeId) (binding : BindingId)
  | memberRecovered (lease : LeaseId) (machine : NodeId) (running : Bool) (exitCode : Option Int32)
  | memberRevokedUnprovable (lease : LeaseId) (machine : NodeId)
  | memberRevokedRebindFailed (lease : LeaseId) (machine : NodeId)
  | terminalMemberResolved (lease : LeaseId) (machine : NodeId)
  | strayFenced (machine node : NodeId) (binding : BindingId)
  deriving DecidableEq

/-- The controller state that outlives a restart, next to the cluster. -/
structure ServiceState where
  requests : OrdMap LeaseId (WorkloadSpec × OwnerId)
  queue : List Queued
  queuedWorkloads : OrdMap RequestId WorkloadSpec
  restartHandled : OrdSet LeaseId
  restartCounts : OrdMap RequestId UInt32
  restartLastAt : OrdMap RequestId UInt64
  restartRoot : OrdMap RequestId RequestId
  serviceGroups : OrdMap String ServiceGroup
  groupMembers : OrdMap String (OrdSet RequestId)
  memberGroups : OrdMap RequestId String
  groupRestarts : OrdMap String UInt32
  groupLastRestart : OrdMap String UInt64
  memberPins : OrdMap RequestId NodeId
  nextLease : UInt64
  nextRequestId : UInt64
  nextSession : UInt64
  nextBinding : UInt64
  deriving DecidableEq

def ServiceState.new : ServiceState where
  requests := ∅
  queue := []
  queuedWorkloads := ∅
  restartHandled := ∅
  restartCounts := ∅
  restartLastAt := ∅
  restartRoot := ∅
  serviceGroups := ∅
  groupMembers := ∅
  memberGroups := ∅
  groupRestarts := ∅
  groupLastRestart := ∅
  memberPins := ∅
  nextLease := 1
  nextRequestId := 1
  nextSession := 1
  nextBinding := 1

/-- The controller. Its durable fields stand together in `state`; an agent is
present with whether its worker still takes jobs. -/
structure NodeService where
  cluster : Cluster
  state : ServiceState
  agents : OrdMap NodeId Bool
  executionCapabilities : OrdMap NodeId ExecutionCapabilities
  inbox : List (Tag × AgentReply)
  inflight : Finset Tag
  memberStatus : OrdMap Member MemberStatus
  providerActivations : Finset Generation
  executionStarted : Finset MemberSession
  executionStopped : Finset MemberSession
  heldEffects : OrdSet Held
  unreachable : List NodeId
  pending : List Effect
  recoveringMachines : OrdMap NodeId MachineRecovery
  recoveryEvents : List RecoveryEvent
  durableSink : Bool

def NodeService.new : NodeService where
  cluster := .new
  state := .new
  agents := ∅
  executionCapabilities := ∅
  inbox := []
  inflight := ∅
  memberStatus := ∅
  providerActivations := ∅
  executionStarted := ∅
  executionStopped := ∅
  heldEffects := ∅
  unreachable := []
  pending := []
  recoveringMachines := ∅
  recoveryEvents := []
  durableSink := false

/-- What an observer of the controller sees. -/
inductive Observation where
  /-- A command the cluster accepts next. -/
  | committed (command : Command)
  /-- The sink is given the durable state, with the command it follows. -/
  | persisted (command : Option Command)
  /-- A request is handed to the worker of a machine. -/
  | dispatched (machine : NodeId) (tag : Tag) (request : AgentRequest)
  /-- An effect is taken from the queue. -/
  | routed (effect : Effect)
  /-- The held effects are taken up again. -/
  | driven
  /-- An answer is taken up. -/
  | absorbed (tag : Tag) (reply : AgentReply)
  /-- The recovery of a machine begins. -/
  | recovering (machine : NodeId)
  /-- The evidence about a returning member is joined. -/
  | joined (lease : LeaseId) (machine : NodeId) (status : MemberStatus)
  /-- A recovery decision is reported. -/
  | decided (event : RecoveryEvent)
  /-- The recovery of a machine ends. -/
  | recovered (machine : NodeId)
  /-- A request enters the queue. -/
  | accepted (request : RequestId)
  /-- A queued member leaves with its group's excess. -/
  | cancelled (request : RequestId)
  /-- A dead lease of an original request is replaced by a fresh request. -/
  | restarted (lease : LeaseId) (root fresh : RequestId)
  /-- A group submits a member; `replaces` when it stands for one found dead. -/
  | enlisted (group : String) (member : RequestId) (replaces : Bool)
  /-- An admission takes the next lease id. -/
  | leased (lease : LeaseId)
  deriving DecidableEq

structure Entry where
  service : NodeService
  seen : Observation

structure World where
  service : NodeService
  trace : List Entry

inductive Fault where
  | err (error : Error)
  | panic
  deriving DecidableEq

abbrev ServiceM := EStateM Fault World

namespace Service

def self : ServiceM NodeService := World.service <$> get

def update (f : NodeService → NodeService) : ServiceM Unit :=
  modify fun w => { w with service := f w.service }

def updateState (f : ServiceState → ServiceState) : ServiceM Unit :=
  update fun s => { s with state := f s.state }

def observe (seen : Observation) : ServiceM Unit :=
  modify fun w => { w with trace := w.trace ++ [⟨w.service, seen⟩] }

def check {α : Type} (result : Except Error α) : ServiceM α :=
  match result with
  | .ok a => pure a
  | .error e => throw (.err e)

/-- Go on after an error; a panic is not caught. -/
def tolerate {α : Type} (program : ServiceM α) : ServiceM (Option α) := fun w =>
  match program w with
  | .ok a w' => .ok (some a) w'
  | .error (.err _) w' => .ok none w'
  | .error .panic w' => .error .panic w'

/-- Clean up after an error and fail with it; a panic is not caught. -/
def onRefusal {α : Type} (program : ServiceM α) (cleanup : ServiceM Unit) : ServiceM α := fun w =>
  match program w with
  | .error (.err e) w' => (do
      cleanup
      throw (.err e) : ServiceM α) w'
  | outcome => outcome

/-! Durable boundaries and the kernel. -/

def persist (command : Option Command) : ServiceM Unit := do
  if (← self).durableSink then observe (.persisted command)

/-- A refused command enters neither the log nor the sink. -/
def commit (command : Command) : ServiceM Unit := do
  match Cluster.apply command (← self).cluster with
  | .error e left =>
    update fun s => { s with cluster := left }
    throw (.err e)
  | .ok effects cluster =>
    observe (.committed command)
    update fun s => { s with cluster }
    persist (some command)
    update fun s => { s with pending := s.pending ++ effects }

def tryCommitLenient (command : Command) : ServiceM Bool := Option.isSome <$> tolerate (commit command)

def commitLenient (command : Command) : ServiceM Unit := do
  let _ ← tryCommitLenient command

/-- Hand one tagged call to the worker of a machine, or drop it. -/
def dispatch (machine : NodeId) (tag : Tag) (request : AgentRequest) : ServiceM Unit := do
  update fun s => { s with inflight := insert tag s.inflight }
  if (← self).agents[machine]? = some true then
    observe (.dispatched machine tag request)
  else
    update fun s => { s with inflight := s.inflight.erase tag }

def report (event : RecoveryEvent) : ServiceM Unit := do
  observe (.decided event)
  update fun s => { s with recoveryEvents := s.recoveryEvents ++ [event] }

end Service

/-! Queries. -/

/-- The states that can no longer carry a live member. -/
def isTerminal : LeaseState → Bool
  | .released | .expired | .revoked | .failed | .completed => true
  | .reserved | .preparing | .active => false

namespace NodeService

def leaseIsTerminal (self : NodeService) (lease : LeaseId) : Bool :=
  self.cluster.leases[lease]?.any fun record => isTerminal record.state

def leaseIsActive (self : NodeService) (lease : LeaseId) : Bool :=
  self.cluster.leases[lease]?.any fun record => record.state = .active

def hasProgram (self : NodeService) (lease : LeaseId) : Bool :=
  self.state.requests[lease]?.any fun entry => entry.1.execution.hasProgram

/-- Machines that take part in a lease, in ascending order. -/
def leaseMachines (self : NodeService) (lease : LeaseId) : List NodeId :=
  match self.cluster.leases[lease]? with
  | none => []
  | some record => sortAsc (record.allocation.claims.filterMap fun claim =>
      self.cluster.graph.machineOf claim.node).dedup

def bindingsFor (self : NodeService) (lease : LeaseId) : List BindingId :=
  ((OrdMap.vals self.cluster.bindings).filter fun binding => binding.lease = lease).map Binding.id

def bindingLease (self : NodeService) (binding : BindingId) : Option LeaseId :=
  self.cluster.bindings[binding]?.map Binding.lease

/-- Only evidence of the machine's current session counts. -/
def memberStopProven (self : NodeService) (lease : LeaseId) (machine : NodeId) : Bool :=
  self.cluster.sessions[machine]?.any fun session => ⟨lease, machine, session⟩ ∈ self.executionStopped

end NodeService

/-! What a member is started with. -/

/-- The text before and after the last slash. -/
def rsplitOnce (text : String) : Option (String × String) :=
  let reversed := text.toList.reverse
  if '/' ∈ reversed then
    let tail := reversed.takeWhile (· ≠ '/')
    let head := (reversed.dropWhile (· ≠ '/')).drop 1
    some (String.ofList head.reverse, String.ofList tail.reverse)
  else
    none

def strippedOf (start text : String) : Option String :=
  if start.toList.isPrefixOf text.toList then
    some (String.ofList (text.toList.drop start.length))
  else
    none

/-- What stands before the first mark and what stands after it. -/
def splitOnce (mark : Char) (text : String) : Option (String × String) :=
  if mark ∈ text.toList then
    some (String.ofList (text.toList.takeWhile (· ≠ mark)),
      String.ofList ((text.toList.dropWhile (· ≠ mark)).drop 1))
  else
    none

/-- A decimal number below a bound, with an optional plus sign. -/
def parseBelow (bound : Nat) (text : String) : Option Nat :=
  let digits := match text.toList with
    | '+' :: rest => rest
    | rest => rest
  if digits ≠ [] && digits.all Char.isDigit then
    let value := digits.foldl (fun total c => total * 10 + (c.toNat - 48)) 0
    if value < bound then some value else none
  else
    none

def parseU32 (text : String) : Option UInt32 := (parseBelow (2 ^ 32) text).map UInt32.ofNat

namespace NodeService

/-- The number of a normalized host leaf. The kinds are compared as written at
the calls, and the call for a CPU passes `cpu/`. -/
def hostLeafNumber (self : NodeService) (node : NodeId) (leafKind : String) : Option UInt32 := do
  let found ← self.cluster.graph.node node
  let hostId ← found.attrs[Discover.hostIdAttr]?
  let (numa, leaf) ← rsplitOnce hostId
  let numa ← strippedOf "numa/" numa
  if leafKind = "cpu" then (strippedOf "cpu/" leaf).bind parseU32
  else if leafKind = "memory" && leaf = "memory" then parseU32 numa
  else none

/-- The claims of a lease on one machine with the kind of their node. -/
def claimsOn (self : NodeService) (lease : Lease) (machine : NodeId) :
    List (Claim × Option ResourceClass) :=
  (lease.allocation.claims.filter fun claim =>
    self.cluster.graph.machineOf claim.node = some machine).map fun claim =>
      (claim, (self.cluster.graph.node claim.node).map Node.kind)

/-- The amounts added up in 64 bits. -/
def claimSum (claims : List Claim) (dimension : CapacityDimension) : UInt64 :=
  claims.foldl (fun total claim => total + quantityGet claim.quantity dimension) 0

def leaseLimitsOnMachine (self : NodeService) (lease : LeaseId) (machine : NodeId) :
    Except Error LeaseLimits := do
  let record ← okOr self.cluster.leases[lease]? (.unknownLease lease)
  let claims := self.claimsOn record machine
  let cpus := (claims.filter fun entry => entry.2 = some .cpu).map Prod.fst
  let memory := (claims.filter fun entry => entry.2 = some .memory).map Prod.fst
  return {
    cpuCount := claimSum cpus .count
    memoryBytes := claimSum memory .bytes
    placement := {
      cpus := sortAsc (cpus.filterMap fun claim => self.hostLeafNumber claim.node "cpu/").dedup
      mems := sortAsc (memory.filterMap fun claim => self.hostLeafNumber claim.node "memory").dedup } }

def leaseDevicesOnMachine (self : NodeService) (lease : LeaseId) (machine : NodeId) :
    List DeviceAccess :=
  match self.cluster.leases[lease]? with
  | none => []
  | some record => ((self.claimsOn record machine).filter fun entry =>
      entry.2.any Discover.isDeviceKind).filterMap fun entry =>
        (self.cluster.graph.node entry.1.node).bind fun node => DeviceAccess.fromAttrs node.attrs

end NodeService

/-! Execution of members. -/

namespace Service

/-- Whether every binding of a lease is active and acknowledged as such under
its recorded session and fence. -/
def allProviderActive (s : NodeService) (lease : LeaseId) : Bool :=
  let bindings := s.bindingsFor lease
  bindings ≠ [] && bindings.all fun binding => s.cluster.bindings[binding]?.any fun record =>
    record.state = .active && ⟨binding, record.agentSession, record.fence⟩ ∈ s.providerActivations

def startExecutionOn (lease : LeaseId) (execution : ExecutionSpec) (machine : NodeId) :
    ServiceM Unit := do
  let s ← self
  if machine ∈ s.recoveringMachines then return
  match s.cluster.sessions[machine]? with
  | none => return
  | some session =>
    if ⟨lease, machine, session⟩ ∈ s.executionStarted ||
        .executionStart lease machine session ∈ s.inflight then return
    let limits ← check (s.leaseLimitsOnMachine lease machine)
    dispatch machine (.executionStart lease machine session)
      (.startExecution lease.asU64 session s.cluster.epoch execution.command limits
        (execution.image.getD "") execution.storage execution.ports execution.graceSecs
        (s.leaseDevicesOnMachine lease machine))

def maybeStartExecutions (lease : LeaseId) : ServiceM Unit := do
  let s ← self
  if !s.leaseIsActive lease then return
  match s.state.requests[lease]? with
  | none => return
  | some (workload, _) =>
    if !workload.execution.hasProgram then return
    if !allProviderActive s lease then return
    (s.leaseMachines lease).forM (startExecutionOn lease workload.execution)

def stopExecutionOn (lease : LeaseId) (machine : NodeId) : ServiceM Unit := do
  let s ← self
  match s.cluster.sessions[machine]? with
  | none => return
  | some session =>
    if ⟨lease, machine, session⟩ ∈ s.executionStopped ||
        .executionStop lease machine session ∈ s.inflight then return
    dispatch machine (.executionStop lease machine session)
      (.stopExecution lease.asU64 session s.cluster.epoch)

/-- Every member of a terminal lease with a program is asked to stop. -/
def maybeStopExecutions (lease : LeaseId) : ServiceM Unit := do
  let s ← self
  if !s.leaseIsTerminal lease then return
  if !s.hasProgram lease then return
  (s.leaseMachines lease).forM (stopExecutionOn lease)

/-- Activate a preparing lease once every binding has its provider's handle. -/
def maybeActivate (lease : LeaseId) : ServiceM Unit := do
  let s ← self
  if !s.cluster.leases[lease]?.any (fun record => record.state = .preparing) then return
  let bindings := s.bindingsFor lease
  if bindings = [] || !(bindings.all fun binding =>
      s.cluster.bindings[binding]?.any fun record => record.providerHandle.isSome) then return
  commitLenient (.activateLease lease)
  bindings.forM fun binding => commitLenient (.activateBinding binding)

def requestStatusOnMachine (lease : LeaseId) (machine : NodeId) : ServiceM Unit := do
  let s ← self
  match s.cluster.sessions[machine]? with
  | none => return
  | some session =>
    if .status lease machine session ∈ s.inflight then return
    dispatch machine (.status lease machine session) (.status lease.asU64)

def requestStatus (lease : LeaseId) : ServiceM Unit := do
  ((← self).leaseMachines lease).forM (requestStatusOnMachine lease)

/-! Routing of effects. -/

/-- The leases of some bindings by their state, in ascending order. -/
def leasesOf (s : NodeService) (bindings : List BindingId) (select : LeaseState → Bool) : List LeaseId :=
  sortAsc (bindings.filterMap fun binding => do
    let record ← s.cluster.bindings[binding]?
    let lease ← s.cluster.leases[record.lease]?
    if select lease.state then some record.lease else none).dedup

/-- Members whose status is not known yet. -/
def awaitMembers (machine : NodeId) (leases : List LeaseId) : ServiceM Unit :=
  update fun s => { s with
    recoveringMachines := s.recoveringMachines.modify machine fun recovery => { recovery with
      members := leases.foldl (fun members lease => members.insertIfNew lease none) recovery.members } }

/-- A recovering machine's bindings by the state of their lease: a status query
for active and terminal leases, and failure for preparing ones. -/
def routeRecovery (machine : NodeId) (bindings : List BindingId) : ServiceM (List Command) := do
  let s ← self
  let active := leasesOf s bindings fun state => state = .active
  let preparing := leasesOf s bindings fun state => state = .preparing
  let terminal := leasesOf s bindings fun state => state ≠ .active && state ≠ .preparing
  awaitMembers machine terminal
  preparing.forM fun lease => report (.preparingLeaseFailed lease machine)
  active.forM fun lease => do
    awaitMembers machine [lease]
    requestStatusOnMachine lease machine
  terminal.forM fun lease => requestStatusOnMachine lease machine
  return preparing.map fun lease => .failLease lease "restart left preparation unproven"

/-- A binding of an earlier session is moved to the current one before its effect
is driven. -/
def rebindStale (binding : BindingId) : ServiceM Unit := do
  let s ← self
  let record ← check (okOr s.cluster.bindings[binding]? (.unknownBinding binding))
  match (s.cluster.graph.machineOf record.node).bind fun machine => s.cluster.sessions[machine]? with
  | some current =>
    if current ≠ record.agentSession then commit (.rebindSession binding current)
  | none => return

/-- Whether an effect on a machine has to wait for the proof that the member of
its terminal lease is gone. -/
def mustHold (s : NodeService) (lease : LeaseId) (machine : NodeId) : Bool :=
  s.leaseIsTerminal lease && s.hasProgram lease && decide (machine ∈ s.cluster.sessions) &&
    !s.memberStopProven lease machine

/-- The hold looks at the lease, not at the phase of the effect. -/
def routeBinding (phase : EffectPhase) (binding : BindingId) (epoch : UInt64) : ServiceM Unit := do
  rebindStale binding
  let s ← self
  let record ← check (okOr s.cluster.bindings[binding]? (.unknownBinding binding))
  let machine ← check (okOr (s.cluster.graph.machineOf record.node)
    (.refused s!"binding {binding} node has no machine ancestor"))
  if mustHold s record.lease machine then
    maybeStopExecutions record.lease
    update fun s => { s with heldEffects := s.heldEffects.insert ⟨binding, phase⟩ () }
  else
    dispatch machine (.binding binding record.agentSession record.fence phase) (.binding phase {
      binding := binding.asU64, lease := record.lease.asU64, node := record.node.asU64
      provider := record.provider.asU64, scope := record.scope, session := record.agentSession
      fence := record.fence, epoch })

/-- Rebind and activate again what is active on a machine whose agent is new. -/
def reconcileCommands (s : NodeService) (session : UInt64) (bindings : List BindingId) : List Command :=
  (bindings.filter fun binding => (s.bindingLease binding).any s.leaseIsActive).flatMap fun binding =>
    [.rebindSession binding session, .activateBinding binding]

def route : Effect → ServiceM (List Command)
  | .reconcile machine session _ bindings => do
    let s ← self
    if machine ∈ s.recoveringMachines then routeRecovery machine bindings
    else return reconcileCommands s session bindings
  | .prepare binding _ _ _ _ epoch => do
    routeBinding .prepare binding epoch
    return []
  | .activate binding _ _ _ _ epoch => do
    routeBinding .activate binding epoch
    return []
  | .release binding _ _ _ _ epoch => do
    routeBinding .release binding epoch
    return []
  | .fence binding _ _ _ _ epoch => do
    routeBinding .fence binding epoch
    return []

/-- Route the effect at the front of the queue and commit what it asks for. -/
def pumpOne : ServiceM Unit := do
  match (← self).pending with
  | [] => return
  | effect :: rest =>
    observe (.routed effect)
    update fun s => { s with pending := rest }
    (← route effect).forM commit

/-- As many effects as are queued now; new ones queue up behind them. -/
def pumpQueued : ServiceM Unit := do
  (List.range (← self).pending.length).forM fun _ => pumpOne

/-- Send every pending effect. A reconcile queues only binding effects and those
queue nothing, so two passes over the queue empty it. -/
def pump : ServiceM Unit := do
  pumpQueued
  pumpQueued

def driveHeld (held : Held) : ServiceM Unit := do
  let s ← self
  match s.cluster.bindings[held.binding]? with
  | none => return
  | some record =>
    match s.cluster.graph.machineOf record.node with
    | none => return
    | some machine =>
      if s.memberStopProven record.lease machine then
        match held.phase with
        | .prepare | .activate => throw .panic
        | phase => routeBinding phase held.binding s.cluster.epoch
      else
        update fun s => { s with heldEffects := s.heldEffects.insert held () }

/-- Route the held effects whose stop is proven and hold the others again. -/
def driveHeldEffects : ServiceM Unit := do
  let held := (← self).heldEffects.keys
  observe .driven
  update fun s => { s with heldEffects := ∅ }
  held.forM driveHeld

end Service
end Archon.Node
