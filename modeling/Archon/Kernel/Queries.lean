import Archon.Kernel.Graph

/-! What placement asks the resource graph: subtrees, classes, locality, health
and the relations between two nodes. -/
namespace Archon.Kernel.Graph

def nodesOfClass (self : Graph) (kind : ResourceClass) : List NodeId :=
  self.byClass[kind]?.getD []

def childrenOf (self : Graph) (id : NodeId) : List NodeId := self.children[id]?.getD []

/-- The nodes contained in a node. Containment is acyclic, so no subtree is
deeper than the number of contained nodes. -/
def descendants (self : Graph) (id : NodeId) : List NodeId :=
  Forest.preorder self.childrenOf self.parent.size id

def observation (self : Graph) (id : NodeId) (key : String) : Option String :=
  self.observations[id]?.bind fun attrs => attrs[key]?

/-- Stored relations are symmetric. -/
def hasEdge (self : Graph) (left right : NodeId) (kind : EdgeKind) : Bool :=
  self.edges.any fun edge => edge.kind = kind &&
    ((edge.fromNode = left && edge.toNode = right) || (edge.fromNode = right && edge.toNode = left))

/-- Whether the data is resident on the node or above it. -/
def caches (self : Graph) (id data : NodeId) : Bool :=
  self.hasEdge data id .cachedOn ||
    (self.ancestors id).any fun ancestor => self.hasEdge data ancestor .cachedOn

/-- The nearest node, from `id` upwards, marked as degraded. -/
def degradedAncestor (self : Graph) (id : NodeId) : Option NodeId :=
  let degraded := fun node => self.observation node "health" = some "degraded"
  if degraded id then some id
  else (self.ancestors id).find? fun ancestor => degraded ancestor

def sameAncestor (self : Graph) (left right : NodeId) (kind : ResourceClass) : Bool :=
  match self.ancestorOfClass left kind, self.ancestorOfClass right kind with
  | some a, some b => a = b
  | _, _ => false

def satisfies (self : Graph) (left right : NodeId) : TopologyRelation → Bool
  | .sameAncestor kind => self.sameAncestor left right kind
  | .differentAncestor kind =>
    match self.ancestorOfClass left kind, self.ancestorOfClass right kind with
    | some a, some b => a ≠ b
    | _, _ => false
  | .contains => left ∈ self.ancestors right || right ∈ self.ancestors left
  | .connected => self.hasEdge left right .connected
  | .cachedOn => self.hasEdge left right .cachedOn

end Archon.Kernel.Graph
