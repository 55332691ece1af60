import Archon.Lib.Forest
import Archon.Kernel.Command
import Archon.Kernel.Quantity

/-! The resource graph: revisioned facts, their containment index and their
writers. An update is computed on a copy, so a refused one yields no graph. -/
namespace Archon.Kernel

structure Graph where
  revision : UInt64
  nodes : OrdMap NodeId Node
  edges : List Edge
  parent : OrdMap NodeId NodeId
  children : OrdMap NodeId (List NodeId)
  byClass : OrdMap ResourceClass (List NodeId)
  claimBindings : OrdMap NodeId (OrdMap CapacityDimension ClaimBinding)
  nodeFactWriters : OrdMap NodeId FactWriterId
  edgeFactWriters : OrdMap FactEdge FactWriterId
  observations : OrdMap NodeId Attrs
  deriving DecidableEq

namespace Graph

def new : Graph := ⟨0, ∅, [], ∅, ∅, ∅, ∅, ∅, ∅, ∅⟩

def node (self : Graph) (id : NodeId) : Option Node := self.nodes[id]?

def parentOf (self : Graph) (id : NodeId) : Option NodeId := self.parent[id]?

def hasFactWriters (self : Graph) : Bool :=
  !self.nodeFactWriters.isEmpty || !self.edgeFactWriters.isEmpty

/-! Staging of fact values. -/

/-- The reserved key is refused before the node replaces its predecessor. -/
def stageNode (staged : OrdMap NodeId Node) (node : Node) : Except Error (OrdMap NodeId Node) := do
  refuseIf ("health" ∈ node.attrs)
    (.refused s!"resource fact {node.id} uses reserved observation key health")
  return staged.insert node.id node

/-- A known edge takes the new attributes in place; a new one is appended. -/
def stageEdge (nodes : OrdMap NodeId Node) (staged : List Edge) (edge : Edge) :
    Except Error (List Edge) := do
  refuseIf (edge.fromNode ∉ nodes) (.unknownNode edge.fromNode)
  refuseIf (edge.toNode ∉ nodes) (.unknownNode edge.toNode)
  if staged.any fun existing => existing.key = edge.key then
    return staged.map fun existing =>
      if existing.key = edge.key then { existing with attrs := edge.attrs } else existing
  else
    return staged ++ [edge]

/-- Each contained node with its one container. -/
def stageContainer (parent : OrdMap NodeId NodeId) (edge : Edge) :
    Except Error (OrdMap NodeId NodeId) :=
  if edge.kind ≠ .contains then
    return parent
  else do
    refuseIf (edge.fromNode = edge.toNode)
      (.invalidTopology s!"node {edge.fromNode} contains itself")
    refuseIf (parent[edge.toNode]?.any fun previous => previous ≠ edge.fromNode)
      (.invalidTopology s!"node {edge.toNode} has more than one container")
    return parent.insert edge.toNode edge.fromNode

/-- Follow containers from `current` and report whether the walk ends. The
walk visits each node once, so `fuel` above the number of contained nodes
cannot run out before a node repeats. -/
def reachesTop (parent : OrdMap NodeId NodeId) : Nat → List NodeId → Option NodeId → Bool
  | _, _, none => true
  | 0, _, some _ => false
  | fuel + 1, visited, some node =>
    if node ∈ visited then false
    else reachesTop parent fuel (node :: visited) parent[node]?

def validateContains (edges : List Edge) : Except Error Unit := do
  let parent ← edges.foldlM stageContainer ∅
  parent.keys.forM fun start =>
    refuseIf (¬reachesTop parent (parent.size + 1) [] (some start))
      (.invalidTopology s!"Contains cycle through node {start}")

def validateClaimBindings (nodes : OrdMap NodeId Node)
    (bindings : OrdMap NodeId (OrdMap CapacityDimension ClaimBinding)) : Except Error Unit :=
  bindings.toList.forM fun (id, dimensions) => do
    let node ← okOr nodes[id]? (.unknownNode id)
    dimensions.keys.forM fun dimension =>
      refuseIf (quantityGet node.capacity dimension = 0)
        (.refused s!"claim binding for {id} dimension {dimension} has no positive capacity")

/-- Recompute the containment and class indexes from nodes and edges. -/
def rebuild (self : Graph) : Graph :=
  let contains := self.edges.filter fun edge => edge.kind = .contains
  let byClass := (OrdMap.vals self.nodes).foldl
    (fun index node => OrdMap.upsert index node.kind [] (· ++ [node.id])) ∅
  let parent := contains.foldl (fun index edge => index.insert edge.toNode edge.fromNode) ∅
  let children := contains.foldl
    (fun index edge => OrdMap.upsert index edge.fromNode [] (· ++ [edge.toNode])) ∅
  { self with
    parent
    children := children.map fun _ ids => sortAsc ids
    byClass := byClass.map fun _ ids => sortAsc ids }

def applyFactValues (self : Graph) (nodes : List Node) (edges : List Edge) :
    Except Error Graph := do
  let stagedNodes ← nodes.foldlM stageNode self.nodes
  let stagedEdges ← edges.foldlM (stageEdge stagedNodes) self.edges
  validateContains stagedEdges
  validateClaimBindings stagedNodes self.claimBindings
  return rebuild { self with nodes := stagedNodes, edges := stagedEdges }

/-- Legacy update without a writer; refused once any fact has one. -/
def apply (self : Graph) (nodes : List Node) (edges : List Edge) : Except Error Graph := do
  refuseIf ((nodes ≠ [] ∨ edges ≠ []) ∧ self.hasFactWriters)
    (.refused "legacy unowned Graph updates are disabled after explicit fact ownership is established")
  let applied ← self.applyFactValues nodes edges
  return { applied with revision := saturatingAdd applied.revision 1 }

/-! Claim contracts. -/

def validateUpdateKeys : List (NodeId × CapacityDimension) → List ClaimBindingUpdate →
    Except Error Unit
  | _, [] => .ok ()
  | seen, update :: rest => do
    refuseIf ((update.node, update.dimension) ∈ seen)
      (.refused s!"duplicate claim-binding update for {update.node} dimension {update.dimension}")
    validateUpdateKeys ((update.node, update.dimension) :: seen) rest

def setClaimBinding (self : Graph) (update : ClaimBindingUpdate) : Except Error Graph := do
  refuseIf (self.node update.node = none) (.unknownNode update.node)
  match update.binding with
  | some binding =>
    return { self with
      claimBindings := OrdMap.upsert self.claimBindings update.node ∅
        (·.insert update.dimension binding) }
  | none =>
    match self.claimBindings[update.node]? with
    | none => return self
    | some dimensions =>
      let kept := dimensions.erase update.dimension
      if kept.isEmpty then
        return { self with claimBindings := self.claimBindings.erase update.node }
      else
        return { self with claimBindings := self.claimBindings.insert update.node kept }

def withdrawals (updates : List ClaimBindingUpdate) : List ClaimBindingUpdate :=
  updates.filter fun update => update.binding.isNone

def additions (updates : List ClaimBindingUpdate) : List ClaimBindingUpdate :=
  updates.filter fun update => update.binding.isSome

/-- Facts and claim contracts in one revision: contracts are withdrawn before
the capacity changes and added after it. -/
def applyResourceFacts (self : Graph) (nodes : List Node) (edges : List Edge)
    (updates : List ClaimBindingUpdate) : Except Error Graph := do
  validateUpdateKeys [] updates
  let targetRevision := saturatingAdd self.revision 1
  let staged ← (withdrawals updates).foldlM setClaimBinding self
  let staged ← staged.apply nodes edges
  let staged ← (additions updates).foldlM setClaimBinding staged
  validateClaimBindings staged.nodes staged.claimBindings
  return { staged with revision := targetRevision }

/-! Facts with an explicit writer. -/

def checkNodeWriter (staged : Graph) (writer : FactWriterId) (seen : List NodeId) (node : Node) :
    Except Error (List NodeId) := do
  refuseIf (node.id ∈ seen)
    (.refused s!"resource fact update names node {node.id} more than once")
  match staged.nodeFactWriters[node.id]? with
  | some owner =>
    refuseIf (owner ≠ writer) (.refused
      s!"resource node {node.id} belongs to fact writer {owner} and cannot be overwritten by {writer}")
  | none =>
    refuseIf (node.id ∈ staged.nodes) (.refused
      s!"legacy resource node {node.id} has no fact writer; adopt verified ownership before mutation")
  return node.id :: seen

def checkEdgeWriter (staged : Graph) (writer : FactWriterId) (seen : List FactEdge) (edge : Edge) :
    Except Error (List FactEdge) := do
  let label := s!"{edge.fromNode} -> {edge.toNode} {edge.kind.debugName}"
  refuseIf (edge.key ∈ seen) (.refused s!"resource fact update names edge {label} more than once")
  match staged.edgeFactWriters[edge.key]? with
  | some owner =>
    refuseIf (owner ≠ writer) (.refused
      s!"resource edge {label} belongs to fact writer {owner} and cannot be overwritten by {writer}")
  | none =>
    refuseIf (staged.edges.any fun existing => existing.key = edge.key) (.refused
      s!"legacy resource edge {label} has no fact writer; adopt verified ownership before mutation")
  return edge.key :: seen

/-- The copy under construction and the facts the update has named so far. -/
structure Staging where
  graph : Graph
  seenNodes : List NodeId
  seenEdges : List FactEdge

def applyBatch (staging : Staging) (batch : ProviderFactBatch) : Except Error Staging := do
  let seenNodes ← batch.nodes.foldlM (checkNodeWriter staging.graph batch.writer) staging.seenNodes
  let seenEdges ← batch.edges.foldlM (checkEdgeWriter staging.graph batch.writer) staging.seenEdges
  let staged ← staging.graph.applyFactValues batch.nodes batch.edges
  let nodeFactWriters := batch.nodes.foldl
    (fun writers node => writers.insert node.id batch.writer) staged.nodeFactWriters
  let edgeFactWriters := batch.edges.foldl
    (fun writers edge => writers.insert edge.key batch.writer) staged.edgeFactWriters
  return ⟨{ staged with nodeFactWriters, edgeFactWriters }, seenNodes, seenEdges⟩

def applyProviderFacts (self : Graph) (batches : List ProviderFactBatch)
    (updates : List ClaimBindingUpdate) : Except Error Graph := do
  validateUpdateKeys [] updates
  let targetRevision := saturatingAdd self.revision 1
  let staged ← (withdrawals updates).foldlM setClaimBinding self
  let staging ← batches.foldlM applyBatch ⟨staged, [], []⟩
  let staged ← (additions updates).foldlM setClaimBinding staging.graph
  validateClaimBindings staged.nodes staged.claimBindings
  return { staged with revision := targetRevision }

/-- Writers under construction and the facts the adoption has named so far. -/
structure Adoption where
  nodeWriters : OrdMap NodeId FactWriterId
  edgeWriters : OrdMap FactEdge FactWriterId
  seenNodes : List NodeId
  seenEdges : List FactEdge

def adoptNode (self : Graph) (writer : FactWriterId) (adoption : Adoption) (node : NodeId) :
    Except Error Adoption := do
  refuseIf (node ∈ adoption.seenNodes)
    (.refused s!"fact writer adoption names node {node} more than once")
  refuseIf (node ∉ self.nodes) (.unknownNode node)
  match adoption.nodeWriters[node]? with
  | some owner =>
    refuseIf (owner ≠ writer) (.refused
      s!"resource node {node} already belongs to fact writer {owner}; cannot adopt {writer}")
  | none => pure ()
  return { adoption with
    nodeWriters := adoption.nodeWriters.insert node writer
    seenNodes := node :: adoption.seenNodes }

def adoptEdge (self : Graph) (writer : FactWriterId) (adoption : Adoption) (edge : FactEdge) :
    Except Error Adoption := do
  let label := s!"{edge.fromNode} -> {edge.toNode} {edge.kind.debugName}"
  refuseIf (edge ∈ adoption.seenEdges)
    (.refused s!"fact writer adoption names edge {label} more than once")
  refuseIf (¬self.edges.any fun existing => existing.key = edge)
    (.refused s!"cannot adopt missing resource edge {label}")
  match adoption.edgeWriters[edge]? with
  | some owner =>
    refuseIf (owner ≠ writer) (.refused
      s!"resource edge {label} already belongs to fact writer {owner}; cannot adopt {writer}")
  | none => pure ()
  return { adoption with
    edgeWriters := adoption.edgeWriters.insert edge writer
    seenEdges := edge :: adoption.seenEdges }

def adoptAssignment (self : Graph) (adoption : Adoption) (assignment : FactWriterAssignment) :
    Except Error Adoption := do
  let adoption ← assignment.nodes.foldlM (self.adoptNode assignment.writer) adoption
  assignment.edges.foldlM (self.adoptEdge assignment.writer) adoption

/-- Fill in missing writers; facts and revision stay as they are. -/
def adoptFactWriters (self : Graph) (assignments : List FactWriterAssignment) :
    Except Error Graph := do
  let adoption ← assignments.foldlM self.adoptAssignment
    ⟨self.nodeFactWriters, self.edgeFactWriters, [], []⟩
  return { self with
    nodeFactWriters := adoption.nodeWriters
    edgeFactWriters := adoption.edgeWriters }

/-! Queries. -/

def claimBinding (self : Graph) (node : NodeId) (dimension : CapacityDimension) :
    Option ClaimBinding :=
  self.claimBindings[node]?.bind fun dimensions => dimensions[dimension]?

def selectClaimBinding (self : Graph) (node : NodeId) (selected : Option ClaimBinding)
    (entry : CapacityDimension × UInt64) : Except Error (Option ClaimBinding) :=
  if entry.2 = 0 then
    return selected
  else do
    let binding ← okOr (self.claimBinding node entry.1) (.unclaimableNode node)
    match selected with
    | some existing =>
      refuseIf (existing ≠ binding) (.refused
        s!"claim on {node} spans capacity dimensions with different provider bindings")
      return selected
    | none => return some binding

/-- The one contract a claim needs; a quantity whose dimensions disagree on it
is refused. -/
def claimBindingForQuantity (self : Graph) (node : NodeId) (quantity : Quantity) :
    Except Error ClaimBinding := do
  refuseIf (self.node node = none) (.unknownNode node)
  let selected ← quantity.toList.foldlM (self.selectClaimBinding node) none
  okOr selected (.unclaimableNode node)

/-- Health is scoring input; it moves neither facts nor revision. -/
def setObservation (self : Graph) (id : NodeId) (key value : String) : Option Graph :=
  if id ∈ self.nodes then
    some { self with
      observations := OrdMap.upsert self.observations id ∅ (·.insert key value) }
  else
    none

/-- Containers of a node, nearest first. Containment is acyclic, so no chain
is longer than the number of contained nodes. -/
def ancestors (self : Graph) (id : NodeId) : List NodeId :=
  Forest.climb self.parentOf self.parent.size id

def hasKind (self : Graph) (id : NodeId) (kind : ResourceClass) : Bool :=
  (self.node id).any fun node => node.kind = kind

def ancestorOfClass (self : Graph) (id : NodeId) (kind : ResourceClass) : Option NodeId :=
  if self.hasKind id kind then some id
  else (self.ancestors id).find? fun ancestor => self.hasKind ancestor kind

def machineOf (self : Graph) (id : NodeId) : Option NodeId :=
  self.ancestorOfClass id .machine

end Graph
end Archon.Kernel
