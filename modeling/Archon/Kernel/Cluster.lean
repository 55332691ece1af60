import Archon.Kernel.Occupancy

/-! The cluster: the authoritative state and its transition function. A command
runs against the state in place; a command that fails part way keeps what it
wrote before the failure, so atomicity is a theorem and not a convention. -/
namespace Archon.Kernel

structure Cluster where
  epoch : UInt64
  now : UInt64
  agreed : Bool
  replaying : Bool
  graph : Graph
  log : List Command
  leases : OrdMap LeaseId Lease
  bindings : OrdMap BindingId Binding
  sessions : OrdMap NodeId UInt64
  lastFence : OrdMap EndpointKey UInt64
  nodeStates : OrdMap NodeId NodeState

abbrev ClusterM := EStateM Error Cluster

namespace Cluster

def new : Cluster where
  epoch := 1
  now := 0
  agreed := true
  replaying := false
  graph := Graph.new
  log := []
  leases := ∅
  bindings := ∅
  sessions := ∅
  lastFence := ∅
  nodeStates := ∅

/-! Queries. -/

/-- Known nodes without an explicit entry are schedulable. -/
def nodeState (self : Cluster) (node : NodeId) : Option NodeState :=
  (self.graph.node node).map fun _ => self.nodeStates[node]?.getD .schedulable

def openBindings (self : Cluster) (lease : LeaseId) : Bool :=
  (OrdMap.vals self.bindings).any fun binding =>
    binding.lease = lease && !binding.state.isClosed

def openBindingLeases (self : Cluster) : List LeaseId :=
  ((OrdMap.vals self.bindings).filter fun binding => !binding.state.isClosed).map Binding.lease

def occupancyExcept (self : Cluster) (except : List LeaseId) : Occupancy :=
  occupancyFromLeases (OrdMap.vals self.leases) self.openBindingLeases except

def occupancy (self : Cluster) : Occupancy := self.occupancyExcept []

def occupies (self : Cluster) (lease : LeaseId) : Bool :=
  self.leases[lease]?.any fun lease => leaseOccupies lease (self.openBindings lease.id)

def children (self : Cluster) (parent : LeaseId) : List LeaseId :=
  ((OrdMap.vals self.leases).filter fun lease => lease.parent = some parent).map Lease.id

/-- Children of a lease in ascending order, as the descendant walk visits them. -/
def sortedChildren (self : Cluster) (parent : LeaseId) : List LeaseId :=
  sortAsc (self.children parent)

/-- The delegation tree below a lease, every child after its own descendants.
A parent is always older than its children, so the tree is no deeper than the
number of leases. -/
def descendantsPostorder (self : Cluster) (parent : LeaseId) : List LeaseId :=
  Forest.walk self.sortedChildren self.leases.size parent

def liveDescendants (self : Cluster) (id : LeaseId) : List LeaseId :=
  (self.descendantsPostorder id).filter fun descendant =>
    self.leases[descendant]?.any fun lease => self.occupies lease.id

def machineBindings (self : Cluster) (machine : NodeId) : List BindingId :=
  ((OrdMap.vals self.bindings).filter fun binding =>
    self.graph.machineOf binding.node = some machine).map Binding.id

def liveMachineBindings (self : Cluster) (machine : NodeId) : List BindingId :=
  (self.machineBindings machine).filter fun id =>
    self.bindings[id]?.any fun binding => binding.state = .preparing || binding.state = .active

/-- A node is quarantined when it or a container of it is not schedulable. -/
def nodeQuarantined (self : Cluster) (node : NodeId) : Bool :=
  let blocked := fun candidate : NodeId =>
    self.nodeStates[candidate]?.any fun state => !state.isSchedulable
  blocked node || (self.graph.ancestors node).any blocked

def requireSession (self : Cluster) (node : NodeId) (session : UInt64) : Except Error NodeId := do
  let machine ← okOr (self.graph.machineOf node) (.unknownNode node)
  let expected ← okOr self.sessions[machine]? (.noAgent machine)
  refuseIf (expected ≠ session) (.staleSession expected session)
  return machine

def requireFence (binding : BindingId) (expected got : UInt64) : Except Error Unit :=
  refuseIf (expected ≠ got) (.fenceMismatch binding expected got)

/-- An effect for a binding, addressed to the current session of its machine. -/
def bindingEffect (self : Cluster) (binding : Binding)
    (kind : BindingId → NodeId → ProviderId → UInt64 → UInt64 → UInt64 → Effect) : Effect :=
  let session := ((self.graph.machineOf binding.node).bind fun machine =>
    self.sessions[machine]?).getD binding.agentSession
  kind binding.id binding.node binding.provider binding.fence session self.epoch

def openBindingsOf (self : Cluster) (lease : LeaseId) : List Binding :=
  (OrdMap.vals self.bindings).filter fun binding =>
    binding.lease = lease && !binding.state.isClosed

def fenceEffects (self : Cluster) (lease : LeaseId) : List Effect :=
  (self.openBindingsOf lease).map fun binding => self.bindingEffect binding .fence

def releaseEffects (self : Cluster) (lease : LeaseId) : List Effect :=
  (self.openBindingsOf lease).map fun binding => self.bindingEffect binding .release

def nodeHasLiveAuthority (self : Cluster) (node : NodeId) : Bool :=
  let inScope := fun candidate : NodeId =>
    candidate = node || node ∈ self.graph.ancestors candidate
  ((OrdMap.vals self.leases).any fun lease =>
      self.occupies lease.id && lease.allocation.claims.any fun claim => inScope claim.node) ||
    (OrdMap.vals self.bindings).any fun binding =>
      !binding.state.isClosed && inScope binding.node

/-! Checks shared by the lease operations. -/

/-- Resolve claims in order, refusing a node that was named before. -/
def resolveClaims (graph : Graph) : List NodeId → List Claim → Except Error (List Claim)
  | _, [] => .ok []
  | seen, claim :: rest => do
    refuseIf (claim.node ∈ seen) (.duplicateClaim claim.node)
    let resolved ← resolveClaim graph claim
    let resolvedRest ← resolveClaims graph (claim.node :: seen) rest
    return resolved :: resolvedRest

def refuseQuarantined (self : Cluster) (claims : List Claim) : Except Error Unit :=
  claims.forM fun claim => refuseIf (self.nodeQuarantined claim.node) (.quarantined claim.node)

/-- Every claim fits beside the occupancy of all other leases. -/
def requireCover (self : Cluster) (id : LeaseId) (claims : List Claim) : Except Error Unit :=
  let occupancy := self.occupancyExcept [id]
  claims.forM fun claim => do
    let covered ← occupancy.canCover self.graph claim
    refuseIf (¬covered) (.overlap claim.node)

/-- Every claim of a child fits in its parent's claim beside its siblings. -/
def requireWithinParent (self : Cluster) (id parentId : LeaseId) (parentLease : Lease)
    (claims : List Claim) : Except Error Unit := do
  refuseIf (¬covers parentLease.allocation.claims claims) (.childEscapesParent id parentId)
  claims.forM fun claim => do
    let parentClaim ← okOr
      (parentLease.allocation.claims.find? fun parentClaim => parentClaim.node = claim.node)
      (.childEscapesParent id parentId)
    let siblingQty := (subtreeUsed (OrdMap.vals self.leases) self.openBindingLeases parentId id).usedOn
      claim.node
    refuseIf (¬claimFits parentClaim.quantity siblingQty claim.quantity) (.overlap claim.node)

/-- What a new lease draws on: its active parent, or free capacity. -/
def requireDelegation (self : Cluster) (id : LeaseId) (claims : List Claim) :
    Option LeaseId → Except Error Unit
  | some parentId => do
    let parentLease ← okOr self.leases[parentId]? (.unknownLease parentId)
    refuseIf (parentLease.state ≠ .active) (.parentNotActive parentId)
    self.requireWithinParent id parentId parentLease claims
  | none => self.requireCover id claims

/-- What an activated lease still draws on. -/
def requireStanding (self : Cluster) (id : LeaseId) (claims : List Claim) :
    Option LeaseId → Except Error Unit
  | some parentId => do
    let parentLease ← okOr self.leases[parentId]? (.unknownLease parentId)
    refuseIf (parentLease.state ≠ .active) (.parentNotActive parentId)
  | none => self.requireCover id claims

/-! Graph operations. -/

/-- Capacity may grow freely but never drop below live claims. -/
def refuseShrunk (self : Cluster) (staged : Graph) : Except Error Unit := do
  let exceeding ← self.occupancy.exceedsCapacity staged
  match exceeding with
  | some node => .error (.capacityBelowOccupancy node)
  | none => .ok ()

/-- Machine ancestry routes enforcement and validates acknowledgements, so it
stays put under every claim of an occupying lease. -/
def refuseRerouted (self : Cluster) (staged : Graph) : Except Error Unit :=
  let occupying := (OrdMap.vals self.leases).filter fun lease =>
    leaseOccupies lease (lease.id ∈ self.openBindingLeases)
  occupying.forM fun lease => lease.allocation.claims.forM fun claim =>
    refuseIf (self.graph.machineOf claim.node ≠ staged.machineOf claim.node)
      (.resourceBusy claim.node)

def installResourceGraph (staged : Graph) : ClusterM (List Effect) := do
  let self ← get
  attempt (self.refuseShrunk staged)
  attempt (self.refuseRerouted staged)
  modify fun self => { self with graph := staged }
  return []

def applyGraph (nodes : List Node) (edges : List Edge) : ClusterM (List Effect) := do
  let self ← get
  attempt (refuseIf (¬self.agreed) .notAgreed)
  let staged ← attempt (self.graph.apply nodes edges)
  installResourceGraph staged

def applyResourceFacts (nodes : List Node) (edges : List Edge)
    (claimBindings : List ClaimBindingUpdate) : ClusterM (List Effect) := do
  let self ← get
  attempt (refuseIf (¬self.agreed) .notAgreed)
  let staged ← attempt (self.graph.applyResourceFacts nodes edges claimBindings)
  installResourceGraph staged

def applyProviderFacts (batches : List ProviderFactBatch)
    (claimBindings : List ClaimBindingUpdate) : ClusterM (List Effect) := do
  let self ← get
  attempt (refuseIf (¬self.agreed) .notAgreed)
  let staged ← attempt (self.graph.applyProviderFacts batches claimBindings)
  installResourceGraph staged

def adoptFactWriters (assignments : List FactWriterAssignment) : ClusterM (List Effect) := do
  let self ← get
  attempt (refuseIf (¬self.agreed) .notAgreed)
  let staged ← attempt (self.graph.adoptFactWriters assignments)
  modify fun self => { self with graph := staged }
  return []

/-! Lease operations. -/

def reserveLease (id : LeaseId) (owner : OwnerId) (allocation : Allocation) (expiresAt : UInt64)
    (priority : UInt32) : ClusterM (List Effect) := do
  let self ← get
  attempt (refuseIf (¬self.agreed) .notAgreed)
  match self.leases[id]? with
  | some existing =>
    if existing.state = .reserved ∧ existing.owner = owner ∧
        existing.allocation.claims = allocation.claims ∧ existing.expiresAt = expiresAt then
      return []
    else
      throw (.duplicateLease id)
  | none =>
    attempt (refuseIf (allocation.graphRevision ≠ self.graph.revision)
      (.staleGraphRevision self.graph.revision allocation.graphRevision))
    let claims ← attempt (resolveClaims self.graph [] allocation.claims)
    attempt (self.refuseQuarantined claims)
    attempt (self.requireCover id claims)
    modify fun self => { self with
      leases := self.leases.insert id {
        id, owner, allocation := { allocation with claims }, parent := none, expiresAt
        prepareDeadline := 0, priority, state := .reserved, exitCode := none } }
    return []

/-- The committed claims are checked again under the current graph, so an
unrelated update does not strand a reservation that still fits. -/
def promoteLease (id : LeaseId) (prepareDeadline : UInt64) : ClusterM (List Effect) := do
  let self ← get
  attempt (refuseIf (¬self.agreed) .notAgreed)
  let lease ← attempt (okOr self.leases[id]? (.unknownLease id))
  if lease.state = .preparing then
    return []
  else do
    attempt (refuseIf (lease.state ≠ .reserved) (.leaseState id lease.state))
    let claims ← attempt (lease.allocation.claims.mapM (resolveClaim self.graph))
    attempt (self.refuseQuarantined claims)
    attempt (refuseIf (¬self.replaying ∧ lease.expiresAt ≤ self.now) (.leaseExpired id))
    attempt (self.requireCover id claims)
    modify fun self => { self with
      leases := self.leases.modify id fun lease => { lease with
        allocation := { lease.allocation with claims, graphRevision := self.graph.revision }
        state := .preparing
        prepareDeadline } }
    return []

def openLease (id : LeaseId) (owner : OwnerId) (allocation : Allocation) (parent : Option LeaseId)
    (expiresAt prepareDeadline : UInt64) (priority : UInt32) : ClusterM (List Effect) := do
  let self ← get
  attempt (refuseIf (¬self.agreed) .notAgreed)
  match self.leases[id]? with
  | some existing =>
    if existing.owner = owner ∧ existing.parent = parent ∧
        existing.allocation.claims = allocation.claims then
      return []
    else
      throw (.duplicateLease id)
  | none =>
    attempt (refuseIf (allocation.graphRevision ≠ self.graph.revision)
      (.staleGraphRevision self.graph.revision allocation.graphRevision))
    let claims ← attempt (resolveClaims self.graph [] allocation.claims)
    attempt (self.refuseQuarantined claims)
    attempt (self.requireDelegation id claims parent)
    modify fun self => { self with
      leases := self.leases.insert id {
        id, owner, allocation := { allocation with claims }, parent, expiresAt
        prepareDeadline, priority, state := .preparing, exitCode := none } }
    return []

def isPrepared (binding : Binding) : Bool :=
  binding.state = .preparing && binding.providerHandle.isSome

/-- Every binding of the lease is prepared, and every claim of a lease without
parent has one. Children reuse the bindings of their parent. -/
def requirePrepared (self : Cluster) (id : LeaseId) (parent : Option LeaseId)
    (claims : List Claim) : Except Error Unit := do
  let required := ((OrdMap.vals self.bindings).filter fun binding => binding.lease = id).map Binding.id
  refuseIf (required.any fun bindingId => self.bindings[bindingId]?.all fun binding =>
    binding.state ≠ .preparing || binding.providerHandle.isNone) (.bindingsNotPrepared id)
  if parent.isNone then
    claims.forM fun claim =>
      refuseIf (¬(OrdMap.vals self.bindings).any fun binding =>
        binding.lease = id && binding.node = claim.node && isPrepared binding)
        (.bindingsNotPrepared id)
  else
    return ()

def activateLease (id : LeaseId) : ClusterM (List Effect) := do
  let self ← get
  attempt (refuseIf (¬self.agreed) .notAgreed)
  let lease ← attempt (okOr self.leases[id]? (.unknownLease id))
  if lease.state = .active then
    return []
  else do
    attempt (refuseIf (lease.state ≠ .preparing) (.leaseState id lease.state))
    attempt (refuseIf (lease.allocation.graphRevision ≠ self.graph.revision)
      (.staleGraphRevision self.graph.revision lease.allocation.graphRevision))
    attempt (self.refuseQuarantined lease.allocation.claims)
    attempt (refuseIf (¬self.replaying ∧ lease.expiresAt ≤ self.now) (.leaseExpired id))
    attempt (refuseIf (¬self.replaying ∧ lease.prepareDeadline < self.now)
      (.prepareDeadlinePassed id))
    attempt (self.requireStanding id lease.allocation.claims lease.parent)
    attempt (self.requirePrepared id lease.parent lease.allocation.claims)
    modify fun self => { self with
      leases := self.leases.modify id fun lease => { lease with state := .active } }
    return []

/-- The states that failing, revoking, expiring and a provider failure keep. -/
def endedKeeps : LeaseState → Bool
  | .failed | .released | .revoked | .expired => true
  | _ => false

/-- The states that completing keeps. -/
def completedKeeps : LeaseState → Bool
  | .revoked | .released | .expired | .failed | .completed => true
  | _ => false

/-- End a lease in `final` unless its state is one the operation leaves alone. -/
def endLease (keeps : LeaseState → Bool) (final : LeaseState) (lease : Lease) : Lease :=
  if keeps lease.state then lease else { lease with state := final }

/-- End every listed lease and collect the fences of its open bindings. -/
def cascade (keeps : LeaseState → Bool) (final : LeaseState) : List LeaseId → ClusterM (List Effect)
  | [] => return []
  | descendant :: rest => do
    modify fun self => { self with
      leases := self.leases.modify descendant (endLease keeps final) }
    let self ← get
    let effects ← cascade keeps final rest
    return self.fenceEffects descendant ++ effects

/-- Revocation collects fences only for descendants it finds. -/
def revokeCascade : List LeaseId → ClusterM (List Effect)
  | [] => return []
  | child :: rest => do
    let self ← get
    match self.leases[child]? with
    | some _ =>
      modify fun self => { self with
        leases := self.leases.modify child (endLease endedKeeps .revoked) }
      let self ← get
      let effects ← revokeCascade rest
      return self.fenceEffects child ++ effects
    | none => revokeCascade rest

def failLease (id : LeaseId) (_reason : String) : ClusterM (List Effect) := do
  let self ← get
  let effects ← cascade endedKeeps .failed (self.descendantsPostorder id)
  let self ← get
  let lease ← attempt (okOr self.leases[id]? (.unknownLease id))
  if endedKeeps lease.state then
    return effects
  else do
    modify fun self => { self with
      leases := self.leases.modify id fun lease => { lease with state := .failed } }
    let self ← get
    return effects ++ self.fenceEffects id

/-- Releasing ends the authority descendants borrow, so none may be live. -/
def releaseLease (id : LeaseId) : ClusterM (List Effect) := do
  let self ← get
  attempt (refuseIf (self.liveDescendants id ≠ []) (.hasLiveDescendants id))
  let lease ← attempt (okOr self.leases[id]? (.unknownLease id))
  if lease.state = .released then
    return self.releaseEffects id
  else do
    attempt (refuseIf (lease.state ≠ .active ∧ lease.state ≠ .reserved) (.leaseState id lease.state))
    modify fun self => { self with
      leases := self.leases.modify id fun lease => { lease with state := .released } }
    let self ← get
    return self.releaseEffects id

def revokeLease (id : LeaseId) : ClusterM (List Effect) := do
  let self ← get
  let effects ← revokeCascade (self.descendantsPostorder id)
  let self ← get
  let _ ← attempt (okOr self.leases[id]? (.unknownLease id))
  modify fun self => { self with
    leases := self.leases.modify id (endLease endedKeeps .revoked) }
  let self ← get
  return effects ++ self.fenceEffects id

def expireLease (id : LeaseId) : ClusterM (List Effect) := do
  let self ← get
  let lease ← attempt (okOr self.leases[id]? (.unknownLease id))
  if lease.state = .expired then
    return self.fenceEffects id
  else do
    attempt (refuseIf (¬lease.state.isLive) (.leaseState id lease.state))
    attempt (refuseIf (¬self.replaying ∧ self.now < lease.expiresAt) .expireNotDue)
    let effects ← cascade endedKeeps .expired (self.descendantsPostorder id)
    let self ← get
    let _ ← attempt (okOr self.leases[id]? (.unknownLease id))
    modify fun self => { self with
      leases := self.leases.modify id fun lease => { lease with state := .expired } }
    let self ← get
    return effects ++ self.fenceEffects id

/-- A zero exit completes the lease, any other exit fails it. -/
def finalState (exitCode : Int32) : LeaseState := if exitCode = 0 then .completed else .failed

def completeLease (id : LeaseId) (exitCode : Int32) : ClusterM (List Effect) := do
  let self ← get
  let lease ← attempt (okOr self.leases[id]? (.unknownLease id))
  if lease.state = .completed ∨ lease.state = .failed then
    return self.fenceEffects id
  else do
    attempt (refuseIf (¬lease.state.isLive) (.leaseState id lease.state))
    let effects ← cascade completedKeeps (finalState exitCode) (self.descendantsPostorder id)
    let self ← get
    let _ ← attempt (okOr self.leases[id]? (.unknownLease id))
    modify fun self => { self with
      leases := self.leases.modify id fun lease => { lease with
        state := finalState exitCode, exitCode := some exitCode } }
    let self ← get
    return effects ++ self.fenceEffects id

def renewLease (id : LeaseId) (newExpiresAt : UInt64) : ClusterM (List Effect) := do
  let self ← get
  attempt (refuseIf (¬self.agreed) .notAgreed)
  let lease ← attempt (okOr self.leases[id]? (.unknownLease id))
  attempt (refuseIf (lease.state ≠ .active ∧ lease.state ≠ .reserved) (.leaseState id lease.state))
  if newExpiresAt = lease.expiresAt then
    return []
  else do
    attempt (refuseIf (newExpiresAt ≤ lease.expiresAt ∨ (¬self.replaying ∧ newExpiresAt ≤ self.now))
      .renewNotLater)
    modify fun self => { self with
      leases := self.leases.modify id fun lease => { lease with expiresAt := newExpiresAt } }
    return []

/-! Binding operations. -/

/-- Whether an open binding already holds the endpoint in a scope that excludes
the new one. -/
def conflictingEndpoint (self : Cluster) (node : NodeId) (provider : ProviderId)
    (scope : BindingScope) : Bool :=
  (OrdMap.vals self.bindings).any fun existing =>
    existing.provider = provider && existing.node = node && !existing.state.isClosed &&
      (scope = .exclusive || existing.scope = .exclusive)

def fenceWatermark (self : Cluster) (provider : ProviderId) (node : NodeId) : UInt64 :=
  self.lastFence[(⟨provider, node⟩ : EndpointKey)]?.getD 0

/-- An exclusive endpoint has one fence namespace, advanced without an overflow
check; an independent share is fenced by its own binding. -/
def issueFence (id : BindingId) (node : NodeId) (provider : ProviderId) :
    BindingScope → ClusterM UInt64
  | .exclusive => do
    let self ← get
    let fence := self.fenceWatermark provider node + 1
    modify fun self => { self with lastFence := self.lastFence.insert ⟨provider, node⟩ fence }
    return fence
  | .independentShare => return max id.asU64 1

def openBinding (id : BindingId) (leaseId : LeaseId) (node : NodeId) (provider : ProviderId)
    (scope : BindingScope) : ClusterM (List Effect) := do
  let self ← get
  match self.bindings[id]? with
  | some existing =>
    if existing.lease = leaseId ∧ existing.node = node ∧ existing.provider = provider ∧
        existing.scope = scope then
      if existing.state = .preparing then
        return [self.bindingEffect existing .prepare]
      else
        return []
    else
      throw (.duplicateBinding id)
  | none =>
    let lease ← attempt (okOr self.leases[leaseId]? (.unknownLease leaseId))
    attempt (refuseIf (lease.state ≠ .preparing) (.leaseState leaseId lease.state))
    attempt (refuseIf lease.parent.isSome (.childBindingRefused leaseId))
    let claim ← attempt (okOr (lease.allocation.claims.find? fun claim => claim.node = node)
      (.invalid "binding node is not in lease claims"))
    let required ← attempt (self.graph.claimBindingForQuantity node claim.quantity)
    attempt (refuseIf (required.provider ≠ provider ∨ required.scope ≠ scope) (.refused
      s!"binding for {node} must use provider {required.provider} with {required.scope.debugName} scope"))
    attempt (refuseIf (self.nodeQuarantined node) (.quarantined node))
    let machine ← attempt (okOr (self.graph.machineOf node) (.unknownNode node))
    let session ← attempt (okOr self.sessions[machine]? (.noAgent machine))
    attempt (refuseIf (self.conflictingEndpoint node provider scope) (.resourceBusy node))
    let fence ← issueFence id node provider scope
    let binding : Binding := {
      id, lease := leaseId, node, provider, scope, fence, agentSession := session
      state := .preparing, providerHandle := none }
    let self ← get
    let effect := self.bindingEffect binding .prepare
    modify fun self => { self with bindings := self.bindings.insert id binding }
    return [effect]

def activateBinding (id : BindingId) : ClusterM (List Effect) := do
  let self ← get
  let binding ← attempt (okOr self.bindings[id]? (.unknownBinding id))
  let lease ← attempt (okOr self.leases[binding.lease]? (.unknownLease binding.lease))
  attempt (refuseIf (lease.state ≠ .active) (.leaseState lease.id lease.state))
  if binding.state = .active then
    return [self.bindingEffect binding .activate]
  else do
    attempt (refuseIf (binding.state ≠ .preparing) (.bindingState id binding.state))
    let effect := self.bindingEffect binding .activate
    modify fun self => { self with
      bindings := self.bindings.modify id fun binding => { binding with state := .active } }
    return [effect]

def fenceBinding (id : BindingId) : ClusterM (List Effect) := do
  let self ← get
  let binding ← attempt (okOr self.bindings[id]? (.unknownBinding id))
  if binding.state = .fenced then
    return [self.bindingEffect binding .fence]
  else if binding.state = .released then
    return []
  else
    return [self.bindingEffect binding .fence]

/-- The controller's own failure report: the lease is left as it is. -/
def failBinding (id : BindingId) (_reason : String) : ClusterM (List Effect) := do
  let self ← get
  let binding ← attempt (okOr self.bindings[id]? (.unknownBinding id))
  if binding.state.isClosed then
    return []
  else do
    modify fun self => { self with
      bindings := self.bindings.modify id fun binding => { binding with state := .failed } }
    let self ← get
    let binding ← attempt (okOr self.bindings[id]? (.unknownBinding id))
    return [self.bindingEffect binding .fence]

def releaseBinding (id : BindingId) : ClusterM (List Effect) := do
  let self ← get
  let binding ← attempt (okOr self.bindings[id]? (.unknownBinding id))
  if binding.state = .released then
    return [self.bindingEffect binding .release]
  else if binding.state.isClosed then
    return []
  else
    return [self.bindingEffect binding .release]

/-- The binding an acknowledgement names, once its session and fence match. -/
def acknowledged (self : Cluster) (id : BindingId) (session fence : UInt64) :
    Except Error Binding := do
  let binding ← okOr self.bindings[id]? (.unknownBinding id)
  let _ ← self.requireSession binding.node session
  requireFence id binding.fence fence
  return binding

def recordPrepared (id : BindingId) (session handle fence : UInt64) : ClusterM (List Effect) := do
  let self ← get
  let binding ← attempt (self.acknowledged id session fence)
  attempt (refuseIf (binding.state ≠ .preparing ∧ binding.state ≠ .active)
    (.bindingState id binding.state))
  modify fun self => { self with
    bindings := self.bindings.modify id fun binding => { binding with
      providerHandle := some handle, agentSession := session } }
  return []

def recordActive (id : BindingId) (session fence : UInt64) : ClusterM (List Effect) := do
  let self ← get
  let binding ← attempt (self.acknowledged id session fence)
  attempt (refuseIf (binding.state ≠ .active) (.bindingState id binding.state))
  modify fun self => { self with
    bindings := self.bindings.modify id fun binding => { binding with agentSession := session } }
  return []

/-- A proven teardown closes the binding, whatever state it was in. -/
def recordClosed (final : BindingState) (id : BindingId) (session fence : UInt64) :
    ClusterM (List Effect) := do
  let self ← get
  let _ ← attempt (self.acknowledged id session fence)
  modify fun self => { self with
    bindings := self.bindings.modify id fun binding => { binding with
      agentSession := session, state := final } }
  return []

def recordReleased (id : BindingId) (session fence : UInt64) : ClusterM (List Effect) :=
  recordClosed .released id session fence

def recordFenced (id : BindingId) (session fence : UInt64) : ClusterM (List Effect) :=
  recordClosed .fenced id session fence

/-- The provider's failure report fails the lease too, but only that lease: its
descendants are not visited. -/
def recordFailed (id : BindingId) (session : UInt64) (_reason : String) (fence : UInt64) :
    ClusterM (List Effect) := do
  let self ← get
  let binding ← attempt (self.acknowledged id session fence)
  let leaseId := binding.lease
  modify fun self => { self with
    bindings := self.bindings.modify id fun binding => { binding with
      agentSession := session
      state := if binding.state.isClosed then binding.state else .failed } }
  let self ← get
  let _ ← attempt (okOr self.leases[leaseId]? (.unknownLease leaseId))
  modify fun self => { self with
    leases := self.leases.modify leaseId (endLease endedKeeps .failed) }
  let self ← get
  return self.fenceEffects leaseId

/-! Nodes, sessions and watermarks. -/

def setNodeState (node : NodeId) (state : NodeState) : ClusterM (List Effect) := do
  let self ← get
  let current ← attempt (okOr (self.nodeState node) (.unknownNode node))
  attempt (refuseIf (current = .retired ∧ state ≠ .retired)
    (.invalid "retired resources require a new identity"))
  attempt (refuseIf (state = .schedulable ∧ current ≠ .schedulable ∧ current ≠ .draining ∧
      (OrdMap.vals self.bindings).any fun binding => !binding.state.isClosed &&
        (binding.node = node || node ∈ self.graph.ancestors binding.node))
    (.unquarantineBlocked node))
  attempt (refuseIf (state = .retired ∧ self.nodeHasLiveAuthority node) (.resourceBusy node))
  modify fun self => { self with
    nodeStates := if state = .schedulable then self.nodeStates.erase node
      else self.nodeStates.insert node state }
  return []

def setNodeHealth (node : NodeId) (health : String) : ClusterM (List Effect) := do
  let self ← get
  let observed ← attempt (okOr (self.graph.setObservation node "health" health) (.unknownNode node))
  modify fun self => { self with graph := observed }
  return []

/-- Sessions are process generations: an older one is refused, an equal one is
a retransmission that reconciles again. -/
def setAgentSession (machine : NodeId) (session : UInt64) : ClusterM (List Effect) := do
  let self ← get
  let node ← attempt (okOr (self.graph.node machine) (.unknownNode machine))
  attempt (refuseIf (node.kind ≠ .machine) (.invalid "agent session requires a machine node"))
  let current := self.sessions[machine]?.getD session
  attempt (refuseIf (session < current) (.staleSession current session))
  modify fun self => { self with sessions := self.sessions.insert machine session }
  let self ← get
  return [.reconcile machine session self.epoch (self.liveMachineBindings machine)]

def rebindSession (id : BindingId) (session : UInt64) : ClusterM (List Effect) := do
  let self ← get
  let binding ← attempt (okOr self.bindings[id]? (.unknownBinding id))
  let _ ← attempt (self.requireSession binding.node session)
  modify fun self => { self with
    bindings := self.bindings.modify id fun binding => { binding with agentSession := session } }
  return []

/-- Raise the watermark of an endpoint to a fence it already accepted. -/
def advanceEndpointFence (node : NodeId) (provider : ProviderId) (fence : UInt64) :
    ClusterM (List Effect) := do
  let self ← get
  attempt (refuseIf (self.graph.node node = none) (.unknownNode node))
  attempt (refuseIf (fence = 0) (.invalid "endpoint fence watermark must be positive"))
  modify fun self => { self with
    lastFence := OrdMap.upsert self.lastFence ⟨provider, node⟩ 0 fun watermark =>
      if watermark < fence then fence else watermark }
  return []

def quarantineNode (node : NodeId) : ClusterM (List Effect) := setNodeState node .quarantined

def unquarantineNode (node : NodeId) : ClusterM (List Effect) := do
  let self ← get
  attempt (refuseIf (self.graph.node node = none) (.unknownNode node))
  if self.nodeState node ≠ some .quarantined then
    return []
  else
    setNodeState node .schedulable

/-! Dispatch. -/

def dispatch : Command → ClusterM (List Effect)
  | .applyGraph nodes edges => applyGraph nodes edges
  | .applyResourceFacts nodes edges claimBindings => applyResourceFacts nodes edges claimBindings
  | .applyProviderFacts batches claimBindings => applyProviderFacts batches claimBindings
  | .adoptFactWriters assignments => adoptFactWriters assignments
  | .reserveLease lease owner allocation expiresAt priority =>
    reserveLease lease owner allocation expiresAt priority
  | .promoteLease lease prepareDeadline => promoteLease lease prepareDeadline
  | .openLease lease owner allocation parent expiresAt prepareDeadline priority =>
    openLease lease owner allocation parent expiresAt prepareDeadline priority
  | .activateLease lease => activateLease lease
  | .failLease lease reason => failLease lease reason
  | .releaseLease lease => releaseLease lease
  | .completeLease lease exitCode => completeLease lease exitCode
  | .revokeLease lease => revokeLease lease
  | .expireLease lease => expireLease lease
  | .renewLease lease newExpiresAt => renewLease lease newExpiresAt
  | .openBinding binding lease node provider scope => openBinding binding lease node provider scope
  | .activateBinding binding => activateBinding binding
  | .fenceBinding binding => fenceBinding binding
  | .failBinding binding reason => failBinding binding reason
  | .releaseBinding binding => releaseBinding binding
  | .recordBindingPrepared binding session providerHandle fence =>
    recordPrepared binding session providerHandle fence
  | .recordBindingActive binding session fence => recordActive binding session fence
  | .recordBindingReleased binding session fence => recordReleased binding session fence
  | .recordBindingFenced binding session fence => recordFenced binding session fence
  | .recordBindingFailed binding session reason fence => recordFailed binding session reason fence
  | .setAgentSession machine session => setAgentSession machine session
  | .setNodeHealth node health => setNodeHealth node health
  | .setNodeState node state => setNodeState node state
  | .rebindSession binding session => rebindSession binding session
  | .advanceEndpointFence node provider fence => advanceEndpointFence node provider fence
  | .quarantineNode node => quarantineNode node
  | .unquarantineNode node => unquarantineNode node

/-- Only an accepted command enters the log. -/
def apply (command : Command) : ClusterM (List Effect) := do
  let effects ← dispatch command
  modify fun self => { self with log := self.log ++ [command] }
  return effects

def setNow (self : Cluster) (now : UInt64) : Cluster := { self with now }

def setAgreement (self : Cluster) (agreed : Bool) : Cluster := { self with agreed }

def setReplaying (self : Cluster) (replaying : Bool) : Cluster := { self with replaying }

def advanceEpoch (self : Cluster) : Cluster := { self with epoch := saturatingAdd self.epoch 1 }

/-- Apply a history in order; the first refusal ends it. -/
def applyAll : List Command → Cluster → Except Error Cluster
  | [], cluster => .ok cluster
  | command :: rest, cluster =>
    match apply command cluster with
    | .ok _ next => applyAll rest next
    | .error e _ => .error e

def replay (commands : List Command) : Except Error Cluster := do
  let cluster ← applyAll commands (new.setReplaying true)
  return cluster.setReplaying false

end Cluster
end Archon.Kernel
