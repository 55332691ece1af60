import Archon.Node.Service

/-! Answers of agents. Each is taken up in the order it arrived: binding answers
become records of the kernel, execution answers become proofs of the session they
carry, and what a returning machine reports is joined until its members are
adopted, stopped or revoked. -/
namespace Archon.Node.Service
open Archon.Kernel Fallible

def awaitsRecovery (s : NodeService) (lease : LeaseId) (machine : NodeId) : Bool :=
  s.recoveringMachines[machine]?.any fun recovery => decide (lease ∈ recovery.members)

def updateRecovery (machine : NodeId) (f : MachineRecovery → MachineRecovery) : ServiceM Unit :=
  update fun s => { s with recoveringMachines := s.recoveringMachines.modify machine f }

/-! Completion and adoption. -/

def memberStatusOf (s : NodeService) (lease : LeaseId) (machine : NodeId) : Option MemberStatus :=
  s.memberStatus[(⟨lease, machine⟩ : Member)]?

/-- The exit a lease has come to: the first failed member decides, and success
needs every member. -/
def observedExit (s : NodeService) (lease : LeaseId) (machines : List NodeId) : Option Int32 :=
  let exits := machines.map fun machine => (memberStatusOf s lease machine).bind MemberStatus.exitCode
  match exits.findSome? fun exit => exit.filter fun code => code ≠ 0 with
  | some code => some code
  | none => if exits.all fun exit => exit = some 0 then some 0 else none

/-- Complete a lease its members have brought to an end; the result lists it. -/
def resolveObservedCompletion (lease : LeaseId) : ServiceM (List LeaseId) := do
  let s ← self
  if !s.leaseIsActive lease then return []
  let machines := s.leaseMachines lease
  if machines = [] then return []
  match observedExit s lease machines with
  | none => return []
  | some exitCode =>
    commitLenient (.completeLease lease exitCode)
    return [lease]

/-- Bindings of the lease on the machine that carry another session. -/
def staleBindings (s : NodeService) (lease : LeaseId) (machine : NodeId) (session : UInt64) :
    List BindingId :=
  (s.bindingsFor lease).filter fun binding => s.cluster.bindings[binding]?.any fun record =>
    record.agentSession ≠ session && s.cluster.graph.machineOf record.node = some machine

def rebindLeaseMachine (lease : LeaseId) (machine : NodeId) : ServiceM Unit := do
  let s ← self
  match s.cluster.sessions[machine]? with
  | none => return
  | some session =>
    (staleBindings s lease machine session).forM fun binding => commit (.rebindSession binding session)

/-- The generations the recovery of a member has proven. -/
def adoptedGenerations (s : NodeService) (lease : LeaseId) (machine : NodeId) : List Generation :=
  (s.bindingsFor lease).filterMap fun binding => do
    let record ← s.cluster.bindings[binding]?
    if record.state = .active && s.cluster.graph.machineOf record.node = some machine then
      some ⟨binding, record.agentSession, record.fence⟩
    else none

/-- An exited member of a terminal lease is proven gone; any other one is asked
to stop, and its held teardown waits. -/
def resolveTerminalMember (lease : LeaseId) (machine : NodeId) (status : MemberStatus) :
    ServiceM Unit := do
  match (← self).cluster.sessions[machine]? with
  | some session =>
    if !status.running && status.exitCode.isSome then
      update fun s => { s with
        executionStopped := insert ⟨lease, machine, session⟩ s.executionStopped }
  | none => pure ()
  let _ ← tolerate (maybeStopExecutions lease)
  let _ ← tolerate driveHeldEffects
  report (.terminalMemberResolved lease machine)

/-- Move the proofs of an adopted member to the current session. -/
def adoptMember (lease : LeaseId) (machine : NodeId) (status : MemberStatus) :
    ServiceM (List LeaseId) := do
  update fun s => { s with
    providerActivations := (adoptedGenerations s lease machine).toFinset ∪ s.providerActivations }
  match (← self).cluster.sessions[machine]? with
  | some session =>
    update fun s => { s with
      executionStarted := insert ⟨lease, machine, session⟩ s.executionStarted }
    if !status.running then
      update fun s => { s with
        executionStopped := insert ⟨lease, machine, session⟩ s.executionStopped }
  | none => pure ()
  let finished ← resolveObservedCompletion lease
  report (.memberRecovered lease machine status.running status.exitCode)
  return finished

/-- Decide about a returning member by its lease and its status. -/
def settleMember (lease : LeaseId) (machine : NodeId) (status : MemberStatus) :
    ServiceM (List LeaseId) := do
  if (← self).leaseIsTerminal lease then
    resolveTerminalMember lease machine status
    return []
  else if status.running || status.exitCode.isSome then
    match ← tolerate (rebindLeaseMachine lease machine) with
    | none =>
      report (.memberRevokedRebindFailed lease machine)
      commitLenient (.revokeLease lease)
      return [lease]
    | some _ => adoptMember lease machine status
  else
    report (.memberRevokedUnprovable lease machine)
    commitLenient (.revokeLease lease)
    return [lease]

def resolveRecoveredMember (lease : LeaseId) (machine : NodeId) (status : MemberStatus) :
    ServiceM (List LeaseId) := do
  update fun s => { s with memberStatus := s.memberStatus.insert ⟨lease, machine⟩ status }
  settleMember lease machine status

/-- Open bindings of a lease on a machine. -/
def openBindingsOn (s : NodeService) (lease : LeaseId) (machine : NodeId) : List Binding :=
  ((s.bindingsFor lease).filterMap fun binding => s.cluster.bindings[binding]?).filter fun record =>
    !record.state.isClosed && s.cluster.graph.machineOf record.node = some machine

/-- Every endpoint and stray close is settled, and each open binding of the lease
on the machine is proven by exactly one report. -/
def endpointsProven (s : NodeService) (recovery : MachineRecovery) (lease : LeaseId)
    (machine : NodeId) : Bool :=
  recovery.endpointsSettled && (openBindingsOn s lease machine).all recovery.proves

/-- The members whose evidence is complete. -/
def readyMembers (s : NodeService) (recovery : MachineRecovery) (machine : NodeId) :
    List (LeaseId × MemberStatus) :=
  recovery.members.toList.filterMap fun (lease, status) => do
    let status ← status
    let needsAdoption := s.leaseIsActive lease && (status.running || status.exitCode.isSome)
    if !needsAdoption || endpointsProven s recovery lease machine then some (lease, status) else none

def resolveReady (machine : NodeId) (lease : LeaseId) (status : MemberStatus) :
    ServiceM (List LeaseId) := do
  observe (.joined lease machine status)
  updateRecovery machine fun recovery => { recovery with members := recovery.members.erase lease }
  resolveRecoveredMember lease machine status

def finishMachineRecovery (machine : NodeId) : ServiceM Unit := do
  observe (.recovered machine)
  update fun s => { s with recoveringMachines := s.recoveringMachines.erase machine }
  commitLenient (.unquarantineNode machine)
  commitLenient (.setNodeHealth machine "healthy")

/-- Join the evidence of the current session. -/
def resolveMachineRecovery (machine : NodeId) : ServiceM (List LeaseId) := do
  let s ← self
  match s.recoveringMachines[machine]? with
  | none => return []
  | some recovery =>
    let finished ← (readyMembers s recovery machine).mapM fun (lease, status) =>
      resolveReady machine lease status
    if (← self).recoveringMachines[machine]?.any MachineRecovery.complete then
      finishMachineRecovery machine
    return finished.flatten

/-! Enumeration. -/

/-- An endpoint elsewhere, an open one without binding, and a known binding at
other coordinates make the whole report inconsistent. -/
def inconsistent (s : NodeService) (machine : NodeId) (endpoint : EnumeratedEndpoint) : Bool :=
  s.cluster.graph.machineOf ⟨endpoint.node⟩ ≠ some machine ||
    (endpoint.isOpen && endpoint.binding.isNone) ||
    (endpoint.binding.bind fun id => s.cluster.bindings[(⟨id⟩ : BindingId)]?).any fun record =>
      !sameGeneration endpoint record

/-- What a report asks for. -/
inductive Disposition where
  | ignore
  | fence (binding : BindingId) (node : NodeId)
  | closed (binding : BindingId) (fence : UInt64)
  | stray (binding : BindingId) (endpoint : EnumeratedEndpoint)

def dispose (s : NodeService) (machine : NodeId) (endpoint : EnumeratedEndpoint) : Disposition :=
  match endpoint.binding with
  | none => .ignore
  | some id =>
    let binding : BindingId := ⟨id⟩
    match s.cluster.bindings[binding]? with
    | none => if endpoint.isOpen then .stray binding endpoint else .ignore
    | some record =>
      if !record.state.isClosed then
        if s.cluster.leases[record.lease]?.any fun lease =>
            lease.state = .active || lease.state = .preparing then .ignore
        else
          let needsStop := s.hasProgram record.lease && !s.memberStopProven record.lease machine
          if endpoint.isOpen || needsStop then .fence binding ⟨endpoint.node⟩
          else .closed binding endpoint.acceptedFence
      else if endpoint.isOpen then .stray binding endpoint
      else .ignore

/-- Identifies the close of a reported generation. -/
def strayTag (machine : NodeId) (session : UInt64) (binding : BindingId)
    (endpoint : EnumeratedEndpoint) : Tag :=
  .strayFence machine session ⟨endpoint.node⟩ ⟨endpoint.provider⟩ endpoint.scope binding
    endpoint.acceptedFence

/-- Fence a generation the kernel does not hold open, and raise the watermark so
that no later binding takes a fence the endpoint has seen. -/
def closeStray (machine : NodeId) (session : UInt64) (binding : BindingId)
    (endpoint : EnumeratedEndpoint) : ServiceM Unit := do
  report (.strayFenced machine ⟨endpoint.node⟩ binding)
  commitLenient (.advanceEndpointFence ⟨endpoint.node⟩ ⟨endpoint.provider⟩ endpoint.acceptedFence)
  let s ← self
  if s.recoveringMachines[machine]?.any fun recovery =>
      strayTag machine session binding endpoint ∉ recovery.strayFences then
    updateRecovery machine fun recovery => { recovery with
      strayFences := insert (strayTag machine session binding endpoint) recovery.strayFences }
    dispatch machine (strayTag machine session binding endpoint) (.binding .fence {
      binding := binding.asU64, lease := 0, node := endpoint.node, provider := endpoint.provider
      scope := endpoint.scope, session, fence := endpoint.acceptedFence, epoch := s.cluster.epoch })

/-! The four passes over a report: what is fenced is reported, then fenced, then
closed endpoints are recorded, and strays are closed last. -/

def reportFenced (machine : NodeId) : Disposition → ServiceM Unit
  | .fence binding node => report (.strayFenced machine node binding)
  | _ => return

def fenceOpen : Disposition → ServiceM Unit
  | .fence binding _ => commitLenient (.fenceBinding binding)
  | _ => return

def recordClosed (session : UInt64) : Disposition → ServiceM Unit
  | .closed binding fence => commitLenient (.recordBindingFenced binding session fence)
  | _ => return

def closeStrays (machine : NodeId) (session : UInt64) : Disposition → ServiceM Unit
  | .stray binding endpoint => closeStray machine session binding endpoint
  | _ => return

/-- Reconcile a machine from its agent's endpoints; `false` when the report does
not agree with the kernel's records. -/
def absorbEnumeration (machine : NodeId) (endpoints : List EnumeratedEndpoint) : ServiceM Bool := do
  let s ← self
  match s.cluster.sessions[machine]? with
  | none => return false
  | some session =>
    if endpoints.any (inconsistent s machine) then return false
    let dispositions := endpoints.map (dispose s machine)
    dispositions.forM (reportFenced machine)
    dispositions.forM fenceOpen
    dispositions.forM (recordClosed session)
    dispositions.forM (closeStrays machine session)
    return true

/-! One answer. -/

def absorbBinding (binding : BindingId) (session fence : UInt64) (reply : AgentReply) :
    ServiceM Unit := do
  let lease := (← self).bindingLease binding
  match reply with
  | .ok (.prepared _ handle) =>
    commitLenient (.recordBindingPrepared binding session handle fence)
    match lease with
    | some lease => maybeActivate lease
    | none => return
  | .ok (.activated _) =>
    if ← tryCommitLenient (.recordBindingActive binding session fence) then
      update fun s => { s with
        providerActivations := insert ⟨binding, session, fence⟩ s.providerActivations }
      match lease with
      | some lease => maybeStartExecutions lease
      | none => return
  | .ok (.released _) => commitLenient (.recordBindingReleased binding session fence)
  | .ok (.fenced _) => commitLenient (.recordBindingFenced binding session fence)
  | .ok (.failed _ reason) => commitLenient (.recordBindingFailed binding session reason fence)
  | _ => return

def unexpectedStart (machine : NodeId) (other : AgentResponse) : String :=
  s!"execution start on machine {machine} returned unexpected response: {other.debug}"

/-- Why a start that was not acknowledged fails its lease. -/
def startFailure (lease : LeaseId) (machine : NodeId) : AgentReply → Option String
  | .ok (.executionStarted got) =>
    if got = lease.asU64 then none else some (unexpectedStart machine (.executionStarted got))
  | .ok (.executionFailed got reason) =>
    if got = lease.asU64 then some s!"execution start failed on machine {machine}: {reason}"
    else some (unexpectedStart machine (.executionFailed got reason))
  | .ok other => some (unexpectedStart machine other)
  | .error reason => some s!"execution start on machine {machine} became unprovable: {reason}"

def absorbStart (lease : LeaseId) (machine : NodeId) (session : UInt64) (reply : AgentReply) :
    ServiceM Unit := do
  let s ← self
  if s.cluster.sessions[machine]? = some session && s.leaseIsActive lease then
    match startFailure lease machine reply with
    | none => update fun s => { s with
        executionStarted := insert ⟨lease, machine, session⟩ s.executionStarted }
    | some reason => commitLenient (.failLease lease reason)

/-- A failed or foreign answer to a stop leaves the teardown held. -/
def absorbStop (lease : LeaseId) (machine : NodeId) (session : UInt64) (reply : AgentReply) :
    ServiceM Unit := do
  if (← self).cluster.sessions[machine]? = some session then
    match reply with
    | .ok (.executionStopped got) =>
      if got = lease.asU64 then
        update fun s => { s with
          executionStopped := insert ⟨lease, machine, session⟩ s.executionStopped }
        driveHeldEffects
    | _ => return

/-- The status an answer reports for a lease. -/
def reportedStatus (lease : LeaseId) : AgentReply → Option MemberStatus
  | .ok (.running got running exitCode) =>
    if got = lease.asU64 then some ⟨running, exitCode⟩ else none
  | _ => none

def absorbStatus (lease : LeaseId) (machine : NodeId) (reply : AgentReply) :
    ServiceM (List LeaseId) := do
  let status := reportedStatus lease reply
  if awaitsRecovery (← self) lease machine then
    updateRecovery machine fun recovery => { recovery with
      members := recovery.members.insert lease (some (status.getD .unknown)) }
    resolveMachineRecovery machine
  else
    match status with
    | none => return []
    | some status =>
      update fun s => { s with memberStatus := s.memberStatus.insert ⟨lease, machine⟩ status }
      resolveObservedCompletion lease

def absorbEnumerate (machine : NodeId) (reply : AgentReply) : ServiceM (List LeaseId) := do
  match reply with
  | .ok (.bindingsEnumerated endpoints) =>
    if ← absorbEnumeration machine endpoints then
      updateRecovery machine fun recovery => { recovery with endpoints := some endpoints }
    resolveMachineRecovery machine
  | _ => return []

def absorbStrayFence (machine : NodeId) (binding : BindingId) (tag : Tag) (reply : AgentReply) :
    ServiceM (List LeaseId) := do
  match reply with
  | .ok (.fenced got) =>
    if got = binding.asU64 then
      updateRecovery machine fun recovery => { recovery with
        strayFences := recovery.strayFences.erase tag }
      resolveMachineRecovery machine
    else return []
  | _ => return []

def absorbProbe (machine : NodeId) (reply : AgentReply) : ServiceM Unit := do
  match reply with
  | .error _ => update fun s => { s with unreachable := s.unreachable ++ [machine] }
  | .ok _ => return

/-- Workers of a replaced agent may still answer; their evidence does not count. -/
def isStale (s : NodeService) (tag : Tag) : Bool :=
  tag.evidenceSession.any fun (machine, session) => s.cluster.sessions[machine]? ≠ some session

def absorbReply (tag : Tag) (reply : AgentReply) : ServiceM (List LeaseId) := do
  observe (.absorbed tag reply)
  update fun s => { s with inflight := s.inflight.erase tag }
  if isStale (← self) tag then return []
  match tag with
  | .binding binding session fence _ => do
    absorbBinding binding session fence reply
    return []
  | .executionStart lease machine session => do
    absorbStart lease machine session reply
    return []
  | .executionStop lease machine session => do
    absorbStop lease machine session reply
    return []
  | .status lease machine _ => absorbStatus lease machine reply
  | .enumerate machine _ => absorbEnumerate machine reply
  | .strayFence machine _ _ _ _ binding _ => absorbStrayFence machine binding tag reply
  | .probe machine => do
    absorbProbe machine reply
    return []

/-- Take up every answer that has arrived. The rest of a batch is lost when one
of its answers fails. -/
def absorb : ServiceM (List LeaseId) := do
  let arrived := (← self).inbox
  update fun s => { s with inbox := [] }
  let finished ← arrived.mapM fun (tag, reply) => absorbReply tag reply
  if finished.flatten ≠ [] then pump
  return finished.flatten

def isQuiescent (s : NodeService) : Bool := s.pending = [] && decide (s.inflight = ∅)

/-- Absorb and send until nothing is outstanding or the time is over; `arrivals`
is what the inbox receives during each wait. -/
def drive : List (List (Tag × AgentReply)) → ServiceM Unit
  | [] => do
    let _ ← absorb
    pump
  | arrived :: rest => do
    let _ ← absorb
    pump
    if isQuiescent (← self) then return
    update fun s => { s with inbox := s.inbox ++ arrived }
    drive rest

/-! Polling. -/

def executingLeases (s : NodeService) : List LeaseId :=
  ((OrdMap.vals s.cluster.leases).filter fun lease =>
    lease.state = .active && s.hasProgram lease.id).map Lease.id

def collectCompletions : ServiceM (List LeaseId) := do
  let finished ← absorb
  (executingLeases (← self)).forM requestStatus
  pump
  return finished

def probeAgents : ServiceM Unit := do
  (← self).agents.keys.forM fun machine => do
    if .probe machine ∉ (← self).inflight then
      dispatch machine (.probe machine) (.status 0)

/-! Ends of leases. -/

def revoke (lease : LeaseId) : ServiceM Unit := do
  commit (.revokeLease lease)
  pump

def dueLeases (s : NodeService) : List LeaseId :=
  ((OrdMap.vals s.cluster.leases).filter fun lease =>
    lease.state.isLive && lease.expiresAt ≤ s.cluster.now).map Lease.id

def expireDue : ServiceM (List LeaseId) := do
  let due := dueLeases (← self)
  due.forM fun lease => commit (.expireLease lease)
  pump
  return due

def tick (now : UInt64) : ServiceM (List LeaseId) := do
  update fun s => { s with cluster := s.cluster.setNow now }
  expireDue

/-- The leases an unhealthy machine takes down. A completed lease is among them. -/
def leasesOn (s : NodeService) (machine : NodeId) : List LeaseId :=
  ((OrdMap.vals s.cluster.leases).filter fun lease =>
    !Cluster.endedKeeps lease.state && lease.allocation.claims.any fun claim =>
      s.cluster.graph.machineOf claim.node = some machine).map Lease.id

def markMachineUnhealthy (machine : NodeId) : ServiceM Unit := do
  commit (.setNodeHealth machine "unhealthy")
  commit (.quarantineNode machine)
  (leasesOn (← self) machine).forM fun lease => commit (.failLease lease "machine unhealthy")
  pump

/-- One administrative command and its effects. -/
def apply (command : Command) : ServiceM Unit := do
  commit command
  pump

end Archon.Node.Service
