import Archon.Kernel.Types

/-! Commands the kernel accepts, effects it emits and errors it refuses with. -/
namespace Archon.Kernel

inductive Command where
  | applyGraph (nodes : List Node) (edges : List Edge)
  | applyResourceFacts (nodes : List Node) (edges : List Edge)
      (claimBindings : List ClaimBindingUpdate)
  | applyProviderFacts (batches : List ProviderFactBatch) (claimBindings : List ClaimBindingUpdate)
  | adoptFactWriters (assignments : List FactWriterAssignment)
  | reserveLease (lease : LeaseId) (owner : OwnerId) (allocation : Allocation)
      (expiresAt : UInt64) (priority : UInt32)
  | promoteLease (lease : LeaseId) (prepareDeadline : UInt64)
  | openLease (lease : LeaseId) (owner : OwnerId) (allocation : Allocation)
      (parent : Option LeaseId) (expiresAt prepareDeadline : UInt64) (priority : UInt32)
  | activateLease (lease : LeaseId)
  | failLease (lease : LeaseId) (reason : String)
  | releaseLease (lease : LeaseId)
  | completeLease (lease : LeaseId) (exitCode : Int32)
  | revokeLease (lease : LeaseId)
  | expireLease (lease : LeaseId)
  | renewLease (lease : LeaseId) (newExpiresAt : UInt64)
  | openBinding (binding : BindingId) (lease : LeaseId) (node : NodeId) (provider : ProviderId)
      (scope : BindingScope)
  | activateBinding (binding : BindingId)
  | fenceBinding (binding : BindingId)
  | failBinding (binding : BindingId) (reason : String)
  | releaseBinding (binding : BindingId)
  | recordBindingPrepared (binding : BindingId) (session providerHandle fence : UInt64)
  | recordBindingActive (binding : BindingId) (session fence : UInt64)
  | recordBindingReleased (binding : BindingId) (session fence : UInt64)
  | recordBindingFenced (binding : BindingId) (session fence : UInt64)
  | recordBindingFailed (binding : BindingId) (session : UInt64) (reason : String) (fence : UInt64)
  | setAgentSession (machine : NodeId) (session : UInt64)
  | setNodeHealth (node : NodeId) (health : String)
  | setNodeState (node : NodeId) (state : NodeState)
  | rebindSession (binding : BindingId) (session : UInt64)
  | advanceEndpointFence (node : NodeId) (provider : ProviderId) (fence : UInt64)
  | quarantineNode (node : NodeId)
  | unquarantineNode (node : NodeId)
  deriving DecidableEq

inductive Effect where
  | prepare (binding : BindingId) (node : NodeId) (provider : ProviderId)
      (fence session epoch : UInt64)
  | activate (binding : BindingId) (node : NodeId) (provider : ProviderId)
      (fence session epoch : UInt64)
  | release (binding : BindingId) (node : NodeId) (provider : ProviderId)
      (fence session epoch : UInt64)
  | fence (binding : BindingId) (node : NodeId) (provider : ProviderId)
      (fence session epoch : UInt64)
  | reconcile (machine : NodeId) (session epoch : UInt64) (bindings : List BindingId)
  deriving DecidableEq

inductive Error where
  | unknownNode (node : NodeId)
  | unknownLease (lease : LeaseId)
  | unknownBinding (binding : BindingId)
  | duplicateLease (lease : LeaseId)
  | duplicateBinding (binding : BindingId)
  | notAgreed
  | quarantined (node : NodeId)
  | staleSession (expected got : UInt64)
  | staleEpoch (current got : UInt64)
  | staleGraphRevision (current got : UInt64)
  | overlap (node : NodeId)
  | childEscapesParent (child parent : LeaseId)
  | parentNotActive (parent : LeaseId)
  | leaseState (lease : LeaseId) (state : LeaseState)
  | bindingState (binding : BindingId) (state : BindingState)
  | bindingsNotPrepared (lease : LeaseId)
  | noAgent (machine : NodeId)
  | renewNotLater
  | expireNotDue
  | prepareDeadlinePassed (lease : LeaseId)
  | leaseExpired (lease : LeaseId)
  | hasLiveDescendants (lease : LeaseId)
  | fenceMismatch (binding : BindingId) (expected got : UInt64)
  | invalidTopology (reason : String)
  | capacityBelowOccupancy (node : NodeId)
  | duplicateClaim (node : NodeId)
  | unclaimableNode (node : NodeId)
  | childBindingRefused (lease : LeaseId)
  | unquarantineBlocked (node : NodeId)
  | resourceBusy (node : NodeId)
  | refused (explanation : String)
  | invalid (reason : String)
  deriving DecidableEq

end Archon.Kernel
