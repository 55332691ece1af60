import Archon.Node.Absorb

/-! Registration of agents. A new machine brings its graph fragment; a known one
must report what is committed, and one that had a session before has to prove its
bindings and members again before it is used. -/
namespace Archon.Node.Service
open Archon.Kernel Fallible

/-- The machine that carries an agent's stable identity. -/
def machineNamed (cluster : Cluster) (instanceId : String) : Option NodeId :=
  (cluster.graph.nodesOfClass .machine).find? fun id =>
    ((cluster.graph.node id).bind fun node => node.attrs["agent_id"]?).any fun attr => attr = instanceId

/-- The largest node id in use. -/
def maxNodeId (graph : Graph) : UInt64 :=
  (OrdMap.vals graph.nodes).foldl (fun largest node => max largest node.id.asU64) 0

def checkText {α : Type} (result : Except String α) : ServiceM α :=
  check (result.mapError Error.refused)

/-! Fact writers. -/

/-- The facts among `keys` without a writer; another writer's is refused. -/
def missingWriters {κ : Type} (writerOf : κ → Option FactWriterId) (label : κ → String)
    (writer : FactWriterId) (keys : List κ) : Except Error (List κ) :=
  keys.filterMapM fun key =>
    match writerOf key with
    | none => .ok (some key)
    | some owner =>
      if owner = writer then .ok none
      else .error (.refused
        s!"resource {label key} already belongs to discovery writer {owner}; returning agent expects {writer}")

def missingFactWriterAssignments (graph : Graph) (machine : NodeId) (devices : List DeviceSpec) :
    Except Error (List FactWriterAssignment) := do
  let missing ← (Discover.currentFactWriterAssignments graph machine devices).mapM fun assignment => do
    let nodes ← missingWriters (fun node => graph.nodeFactWriters[node]?)
      (fun node => s!"node {node}") assignment.writer assignment.nodes
    let edges ← missingWriters (fun edge => graph.edgeFactWriters[edge]?)
      (fun edge => s!"edge {edge.fromNode} -> {edge.toNode} {edge.kind.debugName}")
      assignment.writer assignment.edges
    return (⟨assignment.writer, nodes, edges⟩ : FactWriterAssignment)
  return missing.filter fun assignment => assignment.nodes ≠ [] || assignment.edges ≠ []

def reconcileFactWriters (machine : NodeId) (devices : List DeviceSpec) : ServiceM Unit := do
  let assignments ← check (missingFactWriterAssignments (← self).cluster.graph machine devices)
  if assignments ≠ [] then commit (.adoptFactWriters assignments)

/-! Claim contracts. -/

def missingClaimContracts (graph : Graph) (nodes : List Node) : Except Error (List ClaimBindingUpdate) :=
  (Discover.claimBindings nodes).filterMapM fun update =>
    match graph.claimBinding update.node update.dimension, update.binding with
    | none, _ => .ok (some update)
    | some actual, some expected =>
      if actual = expected then .ok none
      else .error (.refused
        s!"resource {update.node} dimension {update.dimension} already belongs to provider {actual.provider} with {actual.scope.debugName} scope; returning agent reports provider {expected.provider} with {expected.scope.debugName} scope")
    | some _, none => .ok none

def currentClaimContractNodes (graph : Graph) (machine : NodeId) (devices : List DeviceSpec) : List Node :=
  ((graph.descendants machine ++ [machine]).filterMap graph.node).filter
    (Discover.currentlyReported devices)

def reconcileClaimContracts (machine : NodeId) (devices : List DeviceSpec) : ServiceM Unit := do
  let graph := (← self).cluster.graph
  let missing ← check (missingClaimContracts graph (currentClaimContractNodes graph machine devices))
  if missing ≠ [] then commit (.applyProviderFacts [] missing)

/-- An inventory that cannot be reconciled stops new placement on its machine. -/
def markInventoryMismatch (machine : NodeId) : ServiceM Unit := do
  let state := (← self).cluster.nodeState machine
  if state = some .joining || state = some .schedulable then
    commit (.setNodeState machine .unavailable)

/-! Devices of a known machine. -/

/-- The facts a device is committed with on reconciliation. -/
def reconciledAttrs (spec : DeviceSpec) : Attrs :=
  if spec.access ≠ [] then Discover.deviceAttrs spec else (Discover.deviceAttrs spec).erase "access"

/-- The devices of a machine by stable id. -/
def existingDevices (graph : Graph) (machine : NodeId) : OrdMap String NodeId :=
  (graph.descendants machine).foldl (fun index id =>
    match graph.node id with
    | none => index
    | some node =>
      if Discover.isDeviceKind node.kind then
        match node.attrs["id"]? with
        | some stable => index.insert stable id
        | none => index
      else index) ∅

/-- What reconciliation has found about the reported devices so far. -/
structure DevicePlan where
  existing : OrdMap String NodeId
  base : UInt64
  nodes : List Node
  edges : List Edge
  returning : OrdSet NodeId
  reported : OrdSet NodeId

/-- A known device keeps its container, its class and its identity. -/
def checkKnownDevice (cluster : Cluster) (spec : DeviceSpec) (requested : Option NodeId) (id : NodeId) :
    Except Error Unit := do
  let node ← okOr (cluster.graph.node id) (.unknownNode id)
  match node.attrs[Discover.deviceHostParentAttr]?, spec.hostParent with
  | some previous, some current => refuseIf (previous ≠ current) (.refused
      s!"device {DebugText.quoted spec.id} changed host containment from {DebugText.quoted previous} to {DebugText.quoted current}; explicit topology reconciliation is required")
  | some previous, none => .error (.refused
      s!"device {DebugText.quoted spec.id} withdrew authoritative host containment {DebugText.quoted previous}; explicit topology reconciliation is required")
  | none, _ => pure ()
  refuseIf (requested.any fun parent => cluster.graph.parentOf id ≠ some parent) (.refused
    s!"device {DebugText.quoted spec.id} changed physical containment; explicit topology reconciliation is required")
  refuseIf (node.kind ≠ spec.kind) (.refused
    s!"device {DebugText.quoted spec.id} changed resource class; replacement requires a new stable id")
  refuseIf (cluster.nodeState id = some .retired) (.refused
    s!"device {DebugText.quoted spec.id} is retired; replacement requires a new stable id")

def planDevice (cluster : Cluster) (machine : NodeId) (plan : DevicePlan) (spec : DeviceSpec) :
    Except Error DevicePlan := do
  let requested ← match spec.hostParent with
    | none => pure none
    | some parent => ((Discover.hostParentNode cluster.graph machine parent).mapError
        Error.refused).map some
  let (id, plan) ← match plan.existing[spec.id]? with
    | some id => do
      checkKnownDevice cluster spec requested id
      let state := cluster.nodeState id
      let returning := if state = some .unavailable || state = some .joining
        then plan.returning.insert id () else plan.returning
      pure (id, { plan with
        existing := plan.existing.erase spec.id
        reported := plan.reported.insert id ()
        returning })
    | none =>
      let id : NodeId := ⟨plan.base + 1⟩
      pure (id, { plan with
        base := plan.base + 1
        edges := plan.edges ++ [⟨requested.getD machine, id, .contains, ∅⟩] })
  let attrs := reconciledAttrs spec
  if (cluster.graph.node id).any fun node => node.kind = spec.kind && node.attrs = attrs then
    return plan
  else
    return { plan with nodes := plan.nodes ++ [⟨id, spec.kind, attrs, qty .count 1⟩] }

/-- Live leases that claim a node which is gone. -/
def leasesClaiming (s : NodeService) (gone : List NodeId) : List LeaseId :=
  ((OrdMap.vals s.cluster.leases).filter fun lease =>
    lease.state.isLive && lease.allocation.claims.any fun claim => claim.node ∈ gone).map Lease.id

def returnDevice (node : NodeId) : ServiceM Unit := do
  if (← self).cluster.nodeState node = some .unavailable then
    commit (.setNodeState node .joining)
  let s ← self
  let bound := (OrdMap.vals s.cluster.bindings).any fun binding =>
    binding.node = node && !binding.state.isClosed
  if !bound && s.cluster.nodeState node = some .joining then
    commit (.setNodeState node .schedulable)

def reconcileDeviceSubtree (machine : NodeId) (devices : List DeviceSpec) : ServiceM Unit := do
  let cluster := (← self).cluster
  let plan ← check (devices.foldlM (planDevice cluster machine)
    ⟨existingDevices cluster.graph machine, maxNodeId cluster.graph, [], [], ∅, ∅⟩)
  let known := plan.reported.keys.filterMap cluster.graph.node
  let missing ← check (missingClaimContracts cluster.graph known)
  let fresh := plan.nodes.filter fun node => node.id ∉ plan.reported
  let claimBindings := missing ++ Discover.claimBindings fresh
  if plan.nodes ≠ [] || plan.edges ≠ [] || claimBindings ≠ [] then
    commit (.applyProviderFacts [⟨Discover.deviceFactWriter, plan.nodes, plan.edges⟩] claimBindings)
  let disappeared := sortAsc (OrdMap.vals plan.existing)
  disappeared.forM fun node => do
    let state := (← self).cluster.nodeState node
    if state = some .schedulable || state = some .joining then
      commit (.setNodeState node .unavailable)
  (leasesClaiming (← self) disappeared).forM fun lease =>
    commit (.failLease lease "provider resource disappeared")
  plan.returning.keys.forM returnDevice

/-! Registration. -/

/-- Hold a known machine to its committed inventory, or mark it and refuse. -/
def orMismatch (machine : NodeId) (program : ServiceM Unit) : ServiceM Unit :=
  onRefusal program (markInventoryMismatch machine)

def returningMachine (machine : NodeId) (description : MachineDescription) : ServiceM Unit := do
  orMismatch machine do
    check ((Discover.verifyRegisteredHost (← self).cluster.graph machine description).mapError
      fun explanation => Error.refused
        s!"returning agent host inventory changed; explicit topology reconciliation is required: {explanation}")
  orMismatch machine do
    let _ ← check (missingFactWriterAssignments (← self).cluster.graph machine description.devices)
  orMismatch machine do
    let graph := (← self).cluster.graph
    let _ ← check (missingClaimContracts graph
      (currentClaimContractNodes graph machine description.devices))
  orMismatch machine (reconcileFactWriters machine description.devices)
  orMismatch machine (reconcileDeviceSubtree machine description.devices)
  orMismatch machine (reconcileClaimContracts machine description.devices)

def newMachine (description : MachineDescription) : ServiceM NodeId := do
  let base := maxNodeId (← self).cluster.graph
  let (nodes, edges) ← match Discover.buildGraph description base with
    | some facts => pure facts
    | none => throw .panic
  commit (.applyProviderFacts (Discover.providerFactBatches nodes edges) (Discover.claimBindings nodes))
  check (okOr (machineNamed (← self).cluster description.instanceId)
    (.refused "applied graph fragment but machine node is missing"))

def requestEnumeration (machine : NodeId) : ServiceM Unit := do
  let s ← self
  match s.recoveringMachines[machine]? with
  | none => return
  | some recovery =>
    let tag : Tag := .enumerate machine recovery.session
    if tag ∉ s.inflight then dispatch machine tag .enumerateBindings

/-- A known machine with an earlier session starts its recovery; one without has
nothing to recover. -/
def beginSession (machine : NodeId) (known : Bool) : ServiceM Unit := do
  let s ← self
  let recovering := known && decide (machine ∈ s.cluster.sessions)
  let session := s.state.nextSession
  updateState fun state => { state with nextSession := session + 1 }
  if recovering then
    observe (.recovering machine)
    update fun s => { s with
      recoveringMachines := s.recoveringMachines.insert machine (.new session)
      memberStatus := s.memberStatus.filter fun member _ => member.machine ≠ machine }
  else if known then
    commitLenient (.unquarantineNode machine)
    commit (.setNodeHealth machine "healthy")
  commit (.setAgentSession machine session)
  if recovering then requestEnumeration machine

/-- The executor of an agent is replaced by a fresh worker. -/
def registerAgentWithCapabilities (description : MachineDescription)
    (capabilities : ExecutionCapabilities) : ServiceM NodeId := do
  checkText (Discover.validateMachineDescription description)
  let found := machineNamed (← self).cluster description.instanceId
  let machine ← match found with
    | some machine => do
      returningMachine machine description
      pure machine
    | none => newMachine description
  update fun s => { s with
    executionCapabilities := s.executionCapabilities.insert machine capabilities
    agents := s.agents.insert machine true }
  beginSession machine found.isSome
  pump
  return machine

end Archon.Node.Service
