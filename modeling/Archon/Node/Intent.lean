import Archon.Node.Registration

/-! What the operations on desired state write. Every change of the queue, of the
payloads, of the restart bookkeeping and of the groups is one step that carries
what the code has checked before it. -/
namespace Archon.Node
open Archon.Kernel Fallible

/-- What a run may have in it: from outside, commands that set sessions or open leases,
requests under ids in use and operations on groups; restores; restarts. -/
structure Licence where
  sessions : Bool
  leases : Bool
  requests : Bool
  groups : Bool
  restores : Bool
  restarts : Bool

namespace ServiceState

def enqueued (state : ServiceState) (workload : WorkloadSpec) (owner : OwnerId) (now : UInt64) :
    ServiceState :=
  { state with
    nextRequestId := max state.nextRequestId (workload.resources.id.asU64 + 1)
    queuedWorkloads := state.queuedWorkloads.insert workload.resources.id workload
    queue := state.queue ++ [⟨workload.resources, owner, now⟩] }

/-- The payload a request is admitted with. -/
def payloadOf (state : ServiceState) (request : Request) : WorkloadSpec :=
  state.queuedWorkloads[request.id]?.getD (.resourceOnly request)

def admitted (state : ServiceState) (admission : Admission) (index : Nat) : ServiceState :=
  { state with
    nextLease := state.nextLease + 1
    queuedWorkloads := state.queuedWorkloads.erase admission.request.id
    requests := state.requests.insert ⟨state.nextLease⟩
      (state.payloadOf admission.request, admission.owner)
    queue := state.queue.eraseIdx index }

/-- A refused admission, taken back. -/
def returned (state : ServiceState) (admission : Admission) (index : Nat) (queued : Queued) :
    ServiceState :=
  { state with
    nextLease := state.nextLease + 1
    queuedWorkloads := (state.queuedWorkloads.erase admission.request.id).insert admission.request.id
      (state.payloadOf admission.request)
    requests := (state.requests.insert ⟨state.nextLease⟩
      (state.payloadOf admission.request, admission.owner)).erase ⟨state.nextLease⟩
    queue := (state.queue.eraseIdx index).insertIdx index queued }

def cancelled (state : ServiceState) (request : RequestId) : ServiceState :=
  { state with
    queue := state.queue.filter fun queued => queued.request.id ≠ request
    queuedWorkloads := state.queuedWorkloads.erase request
    memberPins := state.memberPins.erase request
    memberGroups := state.memberGroups.erase request
    groupMembers := match state.memberGroups[request]? with
      | some group => state.groupMembers.modify group fun members => members.erase request
      | none => state.groupMembers }

/-- The request the restarts of a workload are counted for, and their count. -/
def rootOf (state : ServiceState) (workload : WorkloadSpec) : RequestId :=
  state.restartRoot[workload.resources.id]?.getD workload.resources.id

def restartsOf (state : ServiceState) (root : RequestId) : UInt32 := state.restartCounts[root]?.getD 0

/-- A root is given its count. -/
def tallied (state : ServiceState) (root : RequestId) : ServiceState :=
  { state with restartCounts := state.restartCounts.insert root (state.restartsOf root) }

/-- A dead lease is counted against its root. -/
def counted (state : ServiceState) (id : LeaseId) (root : RequestId) (now : UInt64) : ServiceState :=
  { state with
    restartCounts := state.restartCounts.insert root (state.restartsOf root + 1)
    restartLastAt := state.restartLastAt.insert root now
    restartHandled := state.restartHandled.insert id () }

/-- A counted lease gets a request in its stead. -/
def restarted (state : ServiceState) (id : LeaseId) (root : RequestId) (now : UInt64) : ServiceState :=
  { state.counted id root now with
    nextRequestId := state.nextRequestId + 1
    restartRoot := state.restartRoot.insert ⟨state.nextRequestId⟩ root }

end ServiceState

/-- The last id there is has been taken, and its counter starts again at zero. -/
def Observation.isLast : Observation → Bool
  | .accepted id | .restarted _ _ id => id.asU64 = 18446744073709551615
  | .leased id => id.asU64 = 18446744073709551615
  | _ => false

def Exhausted (trace : List Entry) : Prop := ∃ entry ∈ trace, entry.seen.isLast

instance decidableExhausted (trace : List Entry) : Decidable (Exhausted trace) :=
  inferInstanceAs (Decidable (∃ entry ∈ trace, entry.seen.isLast))

/-- No request goes by this id yet, though the counter is past it. -/
structure Fresh (state : ServiceState) (id : RequestId) : Prop where
  minted : id.asU64 < state.nextRequestId
  unqueued : ∀ queued ∈ state.queue, queued.request.id ≠ id
  uncarried : ∀ (lease : LeaseId) entry, state.requests[lease]? = some entry → entry.1.resources.id ≠ id

/-- A dead lease whose payload is to be kept alive, which nobody has handled, whose
root may be restarted and has waited long enough. -/
structure Restartable (s : NodeService) (id : LeaseId) (workload : WorkloadSpec) (owner : OwnerId) :
    Prop where
  dead : ∃ lease, s.cluster.leases[id]? = some lease ∧ (lease.state = .failed ∨ lease.state = .expired)
  unhandled : id ∉ s.state.restartHandled
  payload : s.state.requests[id]? = some (workload, owner)
  keepAlive : workload.keepAlive
  cap : s.state.restartsOf (s.state.rootOf workload) < Service.maxRestarts
  due : saturatingAdd (s.state.restartLastAt[s.state.rootOf workload]?.getD 0)
    (Service.backoff (s.state.restartsOf (s.state.rootOf workload))) ≤ s.cluster.now

namespace World

def setState (w : World) (state : ServiceState) : World := w.update fun s => { s with state }

def enqueue (w : World) (workload : WorkloadSpec) (owner : OwnerId) : World :=
  (w.setState (w.service.state.enqueued workload owner w.service.cluster.now)).observe
    (.accepted workload.resources.id)

def restart (w : World) (id : LeaseId) (root : RequestId) : World :=
  (w.setState (w.service.state.restarted id root w.service.cluster.now)).observe
    (.restarted id root ⟨w.service.state.nextRequestId⟩)

/-- A group's new member is queued under the next id. -/
def enroll (w : World) (workload : WorkloadSpec) (owner : OwnerId)
    (memberPins : OrdMap RequestId NodeId) (memberGroups : OrdMap RequestId String)
    (groupMembers : OrdMap String (OrdSet RequestId)) : World :=
  (w.setState { w.service.state with
    nextRequestId := w.service.state.nextRequestId + 1
    memberPins, memberGroups, groupMembers }).enqueue workload owner

/-- An admission takes the next lease id. -/
def draw (w : World) : World := w.observe (.leased ⟨w.service.state.nextLease⟩)

/-- The lease of an admission, as the kernel is asked for it. -/
def openCommand (w : World) (admission : Admission) : Command :=
  .openLease ⟨w.service.state.nextLease⟩ admission.owner admission.allocation none
    (saturatingAdd w.service.cluster.now admission.request.lifetime)
    (saturatingAdd w.service.cluster.now 20) admission.request.priority

end World

theorem restartsOf_tallied (state : ServiceState) (root : RequestId) :
    (state.tallied root).restartsOf root = state.restartsOf root := by
  simp [ServiceState.restartsOf, ServiceState.tallied]

theorem Restartable.tallied {w : World} {id : LeaseId} {workload : WorkloadSpec} {owner : OwnerId}
    (h : Restartable w.service id workload owner) :
    Restartable (w.setState (w.service.state.tallied (w.service.state.rootOf workload))).service id
      workload owner := by
  refine ⟨h.dead, h.unhandled, h.payload, h.keepAlive, ?_, ?_⟩
  · exact (restartsOf_tallied w.service.state (w.service.state.rootOf workload)).symm ▸ h.cap
  · have hdue := h.due
    rw [← restartsOf_tallied w.service.state (w.service.state.rootOf workload)] at hdue
    exact hdue

/-- A move, or a change of the controller state. -/
inductive Stir (licence : Licence) (w : World) : World → Prop where
  | move (h : Move (!licence.sessions) w u) : Stir licence w u
  | opening (h : licence.leases) (hopens : opensLease command)
      (happly : Cluster.apply command w.service.cluster = .ok effects cluster) :
      Stir licence w (w.commit command effects cluster)
  | enqueue (workload : WorkloadSpec) (owner : OwnerId)
      (hfresh : licence.requests ∨ Exhausted w.trace ∨ Fresh w.service.state workload.resources.id ∨
        w.service.state.nextRequestId ≤ workload.resources.id.asU64) :
      Stir licence w (w.enqueue workload owner)
  | enroll (h : licence.groups) (workload : WorkloadSpec) (owner : OwnerId)
      (memberPins : OrdMap RequestId NodeId) (memberGroups : OrdMap RequestId String)
      (groupMembers : OrdMap String (OrdSet RequestId))
      (hid : workload.resources.id = ⟨w.service.state.nextRequestId⟩) :
      Stir licence w (w.enroll workload owner memberPins memberGroups groupMembers)
  | bind : Stir licence w (w.setState { w.service.state with
      nextBinding := w.service.state.nextBinding + 1 })
  | draw : Stir licence w w.draw
  | grant {index : Nat} {queued : Queued}
      (hroom : w.service.state.nextLease ≠ 18446744073709551615 ∨ Exhausted w.trace)
      (hqueued : w.service.state.queue[index]? = some queued)
      (hrequest : queued.request.id = admission.request.id)
      (happly : Cluster.apply (w.openCommand admission) w.service.cluster = .ok effects cluster) :
      Stir licence w ((w.setState (w.service.state.admitted admission index)).commit
        (w.openCommand admission) effects cluster)
  | deny {index : Nat} {queued : Queued}
      (hroom : w.service.state.nextLease ≠ 18446744073709551615 ∨ Exhausted w.trace)
      (hqueued : w.service.state.queue[index]? = some queued)
      (hrequest : queued.request.id = admission.request.id)
      (happly : Cluster.apply (w.openCommand admission) w.service.cluster = .error e left) :
      Stir licence w (w.update fun s => { s with
        cluster := left
        state := w.service.state.returned admission index queued })
  | tally (h : licence.restarts) (root : RequestId) : Stir licence w (w.setState (w.service.state.tallied root))
  | giveUp (h : licence.restarts) (id : LeaseId) :
      Stir licence w (w.setState { w.service.state with
        restartHandled := w.service.state.restartHandled.insert id () })
  | restart {id : LeaseId} (h : Restartable w.service id workload owner)
      (hlicensed : licence.restarts) :
      Stir licence w (w.restart id (w.service.state.rootOf workload))
  | cancel (h : licence.groups) (request : RequestId) :
      Stir licence w ((w.setState (w.service.state.cancelled request)).observe (.cancelled request))
  | regroup (h : licence.groups) (serviceGroups : OrdMap String ServiceGroup)
      (groupMembers : OrdMap String (OrdSet RequestId)) (memberGroups : OrdMap RequestId String)
      (groupRestarts : OrdMap String UInt32) (groupLastRestart : OrdMap String UInt64)
      (memberPins : OrdMap RequestId NodeId) :
      Stir licence w (w.setState { w.service.state with
        serviceGroups, groupMembers, memberGroups, groupRestarts, groupLastRestart, memberPins })
  | enlist (h : licence.groups) (group : String) (member : RequestId) (replaces : Bool) :
      Stir licence w (w.observe (.enlisted group member replaces))
  | restore (h : licence.restores) (hlast : lastPersisted w.trace = some state) :
      Stir licence w (w.update fun s => { s with
        state
        providerActivations := ∅
        executionStarted := ∅
        executionStopped := ∅
        heldEffects := ∅ })

end Archon.Node
