import Archon.Kernel.Cluster

/-! What an accepted command does. `Step` lists every change a command can make
to the cluster together with everything that was checked before it; the theorem
at the end says that it is exactly the successful runs of the code. Invariants
are proved over `Step`, never over the programs. -/
namespace Archon.Kernel.Cluster
open Fallible

/-- A command accepted without a change: a retransmission, or a request for
effects alone. -/
inductive Retry (c : Cluster) : Command → Prop where
  | reserve {id : LeaseId} {lease : Lease} (hagreed : c.agreed) (hlease : c.leases[id]? = some lease)
      (hstate : lease.state = .reserved) (howner : lease.owner = owner)
      (hclaims : lease.allocation.claims = allocation.claims)
      (hexpires : lease.expiresAt = expiresAt) :
      Retry c (.reserveLease id owner allocation expiresAt priority)
  | promote {id : LeaseId} {lease : Lease} (hagreed : c.agreed) (hlease : c.leases[id]? = some lease)
      (hstate : lease.state = .preparing) : Retry c (.promoteLease id deadline)
  | openLease {id : LeaseId} {lease : Lease} (hagreed : c.agreed) (hlease : c.leases[id]? = some lease)
      (howner : lease.owner = owner) (hparent : lease.parent = parent)
      (hclaims : lease.allocation.claims = allocation.claims) :
      Retry c (.openLease id owner allocation parent expiresAt deadline priority)
  | activate {id : LeaseId} {lease : Lease} (hagreed : c.agreed) (hlease : c.leases[id]? = some lease)
      (hstate : lease.state = .active) : Retry c (.activateLease id)
  | release {id : LeaseId} {lease : Lease} (hdead : c.liveDescendants id = []) (hlease : c.leases[id]? = some lease)
      (hstate : lease.state = .released) : Retry c (.releaseLease id)
  | expire {id : LeaseId} {lease : Lease} (hlease : c.leases[id]? = some lease) (hstate : lease.state = .expired) :
      Retry c (.expireLease id)
  | complete {id : LeaseId} {lease : Lease} (hlease : c.leases[id]? = some lease)
      (hstate : lease.state = .completed ∨ lease.state = .failed) : Retry c (.completeLease id code)
  | renew {id : LeaseId} {lease : Lease} (hagreed : c.agreed) (hlease : c.leases[id]? = some lease)
      (hstate : lease.state = .active ∨ lease.state = .reserved)
      (hexpires : newExpiresAt = lease.expiresAt) : Retry c (.renewLease id newExpiresAt)
  | openBinding {id : BindingId} {binding : Binding} (hbinding : c.bindings[id]? = some binding)
      (hlease : binding.lease = lease) (hnode : binding.node = node)
      (hprovider : binding.provider = provider) (hscope : binding.scope = scope) :
      Retry c (.openBinding id lease node provider scope)
  | activateBinding {id : BindingId} {binding : Binding} {lease : Lease} (hbinding : c.bindings[id]? = some binding)
      (hlease : c.leases[binding.lease]? = some lease) (hactive : lease.state = .active)
      (hstate : binding.state = .active) : Retry c (.activateBinding id)
  | fenceBinding {id : BindingId} {binding : Binding} (hbinding : c.bindings[id]? = some binding) :
      Retry c (.fenceBinding id)
  | failBinding {id : BindingId} {binding : Binding} (hbinding : c.bindings[id]? = some binding)
      (hclosed : binding.state.isClosed) : Retry c (.failBinding id reason)
  | releaseBinding {id : BindingId} {binding : Binding} (hbinding : c.bindings[id]? = some binding) :
      Retry c (.releaseBinding id)
  | unquarantine (hstate : c.nodeState node ≠ some .quarantined)
      (hnode : c.graph.node node ≠ none) : Retry c (.unquarantineNode node)

/-- A staged graph, by the command that stages it. -/
inductive Staged (graph : Graph) : Command → Graph → Prop where
  | legacy (h : graph.apply nodes edges = .ok staged) : Staged graph (.applyGraph nodes edges) staged
  | resource (h : graph.applyResourceFacts nodes edges updates = .ok staged) :
      Staged graph (.applyResourceFacts nodes edges updates) staged
  | provider (h : graph.applyProviderFacts batches updates = .ok staged) :
      Staged graph (.applyProviderFacts batches updates) staged

/-- The graph changes that touch no resource fact. -/
inductive Annotated (c : Cluster) : Command → Graph → Prop where
  | adopt (hagreed : c.agreed) (h : c.graph.adoptFactWriters assignments = .ok staged) :
      Annotated c (.adoptFactWriters assignments) staged
  | observe (h : c.graph.setObservation node "health" health = some observed) :
      Annotated c (.setNodeHealth node health) observed

/-- A lease that enters the table, with the checks it passed. -/
inductive Admitted (c : Cluster) : Command → Lease → Prop where
  | reserve {id : LeaseId} (hclaims : resolveClaims c.graph [] allocation.claims = .ok claims)
      (hrevision : allocation.graphRevision = c.graph.revision)
      (hquarantine : c.refuseQuarantined claims = .ok ())
      (hcover : c.requireCover id claims = .ok ()) :
      Admitted c (.reserveLease id owner allocation expiresAt priority)
        { id, owner, allocation := { allocation with claims }, parent := none, expiresAt
          prepareDeadline := 0, priority, state := .reserved, exitCode := none }
  | openLease {id : LeaseId} (hclaims : resolveClaims c.graph [] allocation.claims = .ok claims)
      (hrevision : allocation.graphRevision = c.graph.revision)
      (hquarantine : c.refuseQuarantined claims = .ok ())
      (hdelegation : c.requireDelegation id claims parent = .ok ()) :
      Admitted c (.openLease id owner allocation parent expiresAt prepareDeadline priority)
        { id, owner, allocation := { allocation with claims }, parent, expiresAt
          prepareDeadline, priority, state := .preparing, exitCode := none }

/-- A live lease that moves on, with the state it moves from. -/
inductive Advanced (c : Cluster) (id : LeaseId) (lease : Lease) : Command → (Lease → Lease) → Prop where
  | promote (hstate : lease.state = .reserved)
      (hclaims : lease.allocation.claims.mapM (resolveClaim c.graph) = .ok claims)
      (hquarantine : c.refuseQuarantined claims = .ok ())
      (hclock : c.replaying = false → c.now < lease.expiresAt)
      (hcover : c.requireCover id claims = .ok ()) :
      Advanced c id lease (.promoteLease id deadline) fun lease => { lease with
        allocation := { lease.allocation with claims, graphRevision := c.graph.revision }
        state := .preparing
        prepareDeadline := deadline }
  | activate (hstate : lease.state = .preparing)
      (hrevision : lease.allocation.graphRevision = c.graph.revision)
      (hquarantine : c.refuseQuarantined lease.allocation.claims = .ok ())
      (hexpiry : c.replaying = false → c.now < lease.expiresAt)
      (hdeadline : c.replaying = false → c.now ≤ lease.prepareDeadline)
      (hstanding : c.requireStanding id lease.allocation.claims lease.parent = .ok ())
      (hprepared : c.requirePrepared id lease.parent lease.allocation.claims = .ok ()) :
      Advanced c id lease (.activateLease id) fun lease => { lease with state := .active }
  | renew (hstate : lease.state = .active ∨ lease.state = .reserved)
      (hlater : lease.expiresAt < newExpiresAt)
      (hclock : c.replaying = false → c.now < newExpiresAt) :
      Advanced c id lease (.renewLease id newExpiresAt) fun lease =>
        { lease with expiresAt := newExpiresAt }

/-- A lease that ends with its whole delegation tree: the states the descent
keeps, the state it ends others in, and what happens to the lease itself. -/
inductive Ended (c : Cluster) (id : LeaseId) (lease : Lease) :
    Command → (LeaseState → Bool) → LeaseState → (Lease → Lease) → Prop where
  | fail : Ended c id lease (.failLease id reason) endedKeeps .failed (endLease endedKeeps .failed)
  | revoke : Ended c id lease (.revokeLease id) endedKeeps .revoked (endLease endedKeeps .revoked)
  | expire (hlive : lease.state.isLive) (hdue : c.replaying = false → lease.expiresAt ≤ c.now) :
      Ended c id lease (.expireLease id) endedKeeps .expired
        fun lease => { lease with state := .expired }
  | complete (hlive : lease.state.isLive) :
      Ended c id lease (.completeLease id code) completedKeeps (finalState code)
        fun lease => { lease with state := finalState code, exitCode := some code }

/-- A single binding that moves on. -/
inductive Rebound (c : Cluster) (id : BindingId) (binding : Binding) :
    Command → (Binding → Binding) → Prop where
  | activate {lease : Lease} (hlease : c.leases[binding.lease]? = some lease)
      (hactive : lease.state = .active) (hstate : binding.state = .preparing) :
      Rebound c id binding (.activateBinding id) fun binding => { binding with state := .active }
  | fail (hopen : binding.state.isClosed = false) :
      Rebound c id binding (.failBinding id reason) fun binding => { binding with state := .failed }
  | prepared (hack : c.acknowledged id session fence = .ok binding)
      (hstate : binding.state = .preparing ∨ binding.state = .active) :
      Rebound c id binding (.recordBindingPrepared id session handle fence) fun binding =>
        { binding with providerHandle := some handle, agentSession := session }
  | active (hack : c.acknowledged id session fence = .ok binding)
      (hstate : binding.state = .active) :
      Rebound c id binding (.recordBindingActive id session fence) fun binding =>
        { binding with agentSession := session }
  | released (hack : c.acknowledged id session fence = .ok binding) :
      Rebound c id binding (.recordBindingReleased id session fence) fun binding =>
        { binding with agentSession := session, state := .released }
  | fenced (hack : c.acknowledged id session fence = .ok binding) :
      Rebound c id binding (.recordBindingFenced id session fence) fun binding =>
        { binding with agentSession := session, state := .fenced }
  | rebind {machine : NodeId} (hsession : c.requireSession binding.node session = .ok machine) :
      Rebound c id binding (.rebindSession id session) fun binding =>
        { binding with agentSession := session }

/-- A node state change the guards allow. -/
structure StateAllowed (c : Cluster) (node : NodeId) (state current : NodeState) : Prop where
  known : c.nodeState node = some current
  retired : current = .retired → state = .retired
  clean : state = .schedulable → current ≠ .schedulable → current ≠ .draining →
    ∀ binding ∈ OrdMap.vals c.bindings, binding.state.isClosed = false →
      binding.node ≠ node ∧ node ∉ c.graph.ancestors binding.node
  vacant : state = .retired → c.nodeHasLiveAuthority node = false

/-- The commands that set the state of a node. -/
inductive Restated (c : Cluster) : Command → NodeId → NodeState → Prop where
  | direct : Restated c (.setNodeState node state) node state
  | quarantine : Restated c (.quarantineNode node) node .quarantined
  | unquarantine (h : c.nodeState node = some .quarantined) :
      Restated c (.unquarantineNode node) node .schedulable

/-- The fence an exclusive binding takes, and the watermarks after it. -/
def issuedFence (c : Cluster) (id : BindingId) (node : NodeId) (provider : ProviderId) :
    BindingScope → UInt64
  | .exclusive => c.fenceWatermark provider node + 1
  | .independentShare => max id.asU64 1

def issuedFences (c : Cluster) (node : NodeId) (provider : ProviderId) :
    BindingScope → OrdMap EndpointKey UInt64
  | .exclusive => c.lastFence.insert ⟨provider, node⟩ (c.fenceWatermark provider node + 1)
  | .independentShare => c.lastFence

/-- The lease table after a tree has ended. -/
def endTree (c : Cluster) (id : LeaseId) (keeps : LeaseState → Bool) (final : LeaseState)
    (last : Lease → Lease) : OrdMap LeaseId Lease :=
  ((c.descendantsPostorder id).foldl (fun leases descendant =>
    leases.modify descendant (endLease keeps final)) c.leases).modify id last

/-- One accepted command, without the log entry. -/
inductive Step (c : Cluster) : Command → Cluster → Prop where
  | retry (h : Retry c command) : Step c command c
  | install (hagreed : c.agreed) (hstaged : Staged c.graph command staged)
      (hshrunk : c.refuseShrunk staged = .ok ()) (hrouted : c.refuseRerouted staged = .ok ()) :
      Step c command { c with graph := staged }
  | annotate (h : Annotated c command staged) : Step c command { c with graph := staged }
  | enter {lease : Lease} (hagreed : c.agreed) (hfresh : c.leases[lease.id]? = none)
      (h : Admitted c command lease) :
      Step c command { c with leases := c.leases.insert lease.id lease }
  | advance {id : LeaseId} {lease : Lease} {move : Lease → Lease} (hagreed : c.agreed)
      (hlease : c.leases[id]? = some lease) (h : Advanced c id lease command move) :
      Step c command { c with leases := c.leases.modify id move }
  | release {id : LeaseId} {lease : Lease} (hdead : c.liveDescendants id = [])
      (hlease : c.leases[id]? = some lease)
      (hstate : lease.state = .active ∨ lease.state = .reserved) :
      Step c (.releaseLease id)
        { c with leases := c.leases.modify id fun lease => { lease with state := .released } }
  | finish {id : LeaseId} {lease : Lease} (hlease : c.leases[id]? = some lease)
      (h : Ended c id lease command keeps final last) :
      Step c command { c with leases := c.endTree id keeps final last }
  | bind {id : BindingId} {leaseId : LeaseId} {lease : Lease} {claim : Claim}
      {required : ClaimBinding} {machine : NodeId} {session : UInt64}
      (hfresh : c.bindings[id]? = none) (hlease : c.leases[leaseId]? = some lease)
      (hstate : lease.state = .preparing) (hroot : lease.parent = none)
      (hclaim : lease.allocation.claims.find? (fun claim => claim.node = node) = some claim)
      (hrequired : c.graph.claimBindingForQuantity node claim.quantity = .ok required)
      (hprovider : required.provider = provider) (hscope : required.scope = scope)
      (hquarantine : c.nodeQuarantined node = false)
      (hmachine : c.graph.machineOf node = some machine)
      (hsession : c.sessions[machine]? = some session)
      (hendpoint : c.conflictingEndpoint node provider scope = false) :
      Step c (.openBinding id leaseId node provider scope)
        { c with
          lastFence := c.issuedFences node provider scope
          bindings := c.bindings.insert id {
            id, lease := leaseId, node, provider, scope
            fence := c.issuedFence id node provider scope
            agentSession := session, state := .preparing, providerHandle := none } }
  | rebind {id : BindingId} {binding : Binding} (hbinding : c.bindings[id]? = some binding)
      (h : Rebound c id binding command move) :
      Step c command { c with bindings := c.bindings.modify id move }
  | lose {id : BindingId} {binding : Binding} {lease : Lease}
      (hack : c.acknowledged id session fence = .ok binding)
      (hlease : c.leases[binding.lease]? = some lease) :
      Step c (.recordBindingFailed id session reason fence)
        { c with
          bindings := c.bindings.modify id fun binding => { binding with
            agentSession := session
            state := if binding.state.isClosed then binding.state else .failed }
          leases := c.leases.modify binding.lease (endLease endedKeeps .failed) }
  | hello {found : Node} (hnode : c.graph.node machine = some found) (hkind : found.kind = .machine)
      (hnewer : ∀ current, c.sessions[machine]? = some current → current ≤ session) :
      Step c (.setAgentSession machine session)
        { c with sessions := c.sessions.insert machine session }
  | restate {current : NodeState} (hcommand : Restated c command node state)
      (hallowed : StateAllowed c node state current) :
      Step c command { c with
        nodeStates := if state = .schedulable then c.nodeStates.erase node
          else c.nodeStates.insert node state }
  | raise (hnode : c.graph.node node ≠ none) (hpositive : fence ≠ 0) :
      Step c (.advanceEndpointFence node provider fence) { c with
        lastFence := OrdMap.upsert c.lastFence ⟨provider, node⟩ 0 fun watermark =>
          if watermark < fence then fence else watermark }

end Archon.Kernel.Cluster
