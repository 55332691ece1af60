import Archon.Kernel.Ids

/-! Records of the kernel: resource facts, claims, leases and bindings. -/
namespace Archon.Kernel
open Std

abbrev Quantity := OrdMap CapacityDimension UInt64
abbrev Attrs := OrdMap String String

inductive NodeState where
  | joining | schedulable | draining | unavailable | quarantined | retired
  deriving DecidableEq

def NodeState.isSchedulable : NodeState → Bool
  | .schedulable => true
  | _ => false

inductive EdgeKind where
  | contains | connected | cachedOn
  deriving DecidableEq

def EdgeKind.debugName : EdgeKind → String
  | .contains => "Contains"
  | .connected => "Connected"
  | .cachedOn => "CachedOn"

/-- Declaration order, which is the order edge keys are stored in. -/
def EdgeKind.index : EdgeKind → Nat
  | .contains => 0
  | .connected => 1
  | .cachedOn => 2

/-- Identity of one stored edge. -/
structure FactEdge where
  fromNode : NodeId
  toNode : NodeId
  kind : EdgeKind
  deriving DecidableEq

instance : Ord FactEdge :=
  ⟨compareLex (compareOn FactEdge.fromNode)
    (compareLex (compareOn FactEdge.toNode) (compareOn fun edge => edge.kind.index))⟩

instance : TransOrd FactEdge :=
  inferInstanceAs (TransCmp (compareLex (compareOn FactEdge.fromNode)
    (compareLex (compareOn FactEdge.toNode) (compareOn fun edge : FactEdge => edge.kind.index))))

theorem EdgeKind.index_injective {a b : EdgeKind} (h : a.index = b.index) : a = b := by
  cases a <;> cases b <;> first | rfl | simp [EdgeKind.index] at h

instance : LawfulEqOrd FactEdge where
  eq_of_compare {a b} h := by
    have hlex : compareLex (compareOn FactEdge.fromNode)
        (compareLex (compareOn FactEdge.toNode) (compareOn fun edge => edge.kind.index)) a b = .eq := h
    simp only [compareLex_eq_eq, compareOn, LawfulEqCmp.compare_eq_iff_eq] at hlex
    obtain ⟨hfrom, hto, hkind⟩ := hlex
    cases a
    cases b
    simp only [FactEdge.mk.injEq]
    exact ⟨hfrom, hto, EdgeKind.index_injective hkind⟩

/-- One exclusive endpoint: a provider and the node it enforces. -/
structure EndpointKey where
  provider : ProviderId
  node : NodeId
  deriving DecidableEq

instance : Ord EndpointKey := ⟨compareLex (compareOn EndpointKey.provider) (compareOn EndpointKey.node)⟩

instance : TransOrd EndpointKey :=
  inferInstanceAs (TransCmp (compareLex (compareOn EndpointKey.provider) (compareOn EndpointKey.node)))

instance : LawfulEqOrd EndpointKey where
  eq_of_compare {a b} h := by
    have hlex : compareLex (compareOn EndpointKey.provider) (compareOn EndpointKey.node) a b = .eq := h
    simp only [compareLex_eq_eq, compareOn, LawfulEqCmp.compare_eq_iff_eq] at hlex
    cases a
    cases b
    simpa only [EndpointKey.mk.injEq] using hlex

structure Node where
  id : NodeId
  kind : ResourceClass
  attrs : Attrs
  capacity : Quantity
  deriving DecidableEq

structure Edge where
  fromNode : NodeId
  toNode : NodeId
  kind : EdgeKind
  attrs : Attrs
  deriving DecidableEq

/-- The key under which an edge is stored and owned. -/
def Edge.key (edge : Edge) : FactEdge := ⟨edge.fromNode, edge.toNode, edge.kind⟩

/-- One writer's contribution to the revisioned facts. -/
structure ProviderFactBatch where
  writer : FactWriterId
  nodes : List Node
  edges : List Edge
  deriving DecidableEq

/-- Ownership claimed for facts that predate explicit writers. -/
structure FactWriterAssignment where
  writer : FactWriterId
  nodes : List NodeId
  edges : List FactEdge
  deriving DecidableEq

inductive BindingScope where
  | exclusive | independentShare
  deriving DecidableEq

def BindingScope.debugName : BindingScope → String
  | .exclusive => "Exclusive"
  | .independentShare => "IndependentShare"

/-- The provider contract that turns one capacity dimension into authority. -/
structure ClaimBinding where
  provider : ProviderId
  scope : BindingScope
  deriving DecidableEq

/-- `none` withdraws claimability without deleting the placement fact. -/
structure ClaimBindingUpdate where
  node : NodeId
  dimension : CapacityDimension
  binding : Option ClaimBinding
  deriving DecidableEq

structure Claim where
  node : NodeId
  quantity : Quantity
  deriving DecidableEq

inductive TopologyRelation where
  | sameAncestor (resourceClass : ResourceClass)
  | differentAncestor (resourceClass : ResourceClass)
  | contains
  | connected
  | cachedOn
  deriving DecidableEq

inductive PlacementReason where
  | machineSelected (machine : NodeId)
  | candidateScore (node : NodeId) (score : Int) (dataLocal : List NodeId)
      (degradedAncestor : Option NodeId)
  | topologyConstraint (index : Nat) (relation : TopologyRelation) (selectedLeft : List NodeId)
      (selectedRight : List NodeId) (rejected : Option (NodeId × NodeId))
  deriving DecidableEq

structure PlacementExplanation where
  summary : String
  reasons : List PlacementReason
  deriving DecidableEq

structure Allocation where
  claims : List Claim
  graphRevision : UInt64
  explanation : PlacementExplanation
  deriving DecidableEq

inductive LeaseState where
  | reserved | preparing | active | released | expired | revoked | failed | completed
  deriving DecidableEq

structure Lease where
  id : LeaseId
  owner : OwnerId
  allocation : Allocation
  parent : Option LeaseId
  expiresAt : UInt64
  prepareDeadline : UInt64
  priority : UInt32
  state : LeaseState
  exitCode : Option Int32
  deriving DecidableEq

inductive BindingState where
  | preparing | active | released | fenced | failed
  deriving DecidableEq

def BindingState.isClosed : BindingState → Bool
  | .released | .fenced => true
  | _ => false

structure Binding where
  id : BindingId
  lease : LeaseId
  node : NodeId
  provider : ProviderId
  scope : BindingScope
  fence : UInt64
  agentSession : UInt64
  state : BindingState
  providerHandle : Option UInt64
  deriving DecidableEq

end Archon.Kernel
