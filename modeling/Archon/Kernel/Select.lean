import Archon.Kernel.Cluster
import Archon.Kernel.Queries

/-! Placement: which nodes a request is granted. Needs are satisfied greedily in
ranked order, on any machines or on one machine; a machine that fails greedily
is searched again within a budget when constraints are given. What a constraint
rejected is traced across needs and machines, also through failed attempts. -/
namespace Archon.Kernel
open Fallible

/-! Requests. -/

inductive RequestClass where
  | service | batch
  deriving DecidableEq

def RequestClass.debugName : RequestClass → String
  | .service => "Service"
  | .batch => "Batch"

structure Filter where
  key : String
  value : String
  deriving DecidableEq

structure Need where
  kind : ResourceClass
  quantity : Quantity
  filters : List Filter
  deriving DecidableEq

structure TopologyConstraint where
  left : Nat
  right : Nat
  relation : TopologyRelation
  deriving DecidableEq

inductive Preference where
  | pack | spread
  | preferAttr (key value : String)
  deriving DecidableEq

structure Request where
  id : RequestId
  requestClass : RequestClass
  needs : List Need
  topology : List TopologyConstraint
  preferences : List Preference
  data : List NodeId
  lifetime : UInt64
  priority : UInt32
  machineLocal : Bool
  deriving DecidableEq

def ResourceClass.debugText (kind : ResourceClass) : String :=
  "ResourceClass(\"" ++ kind.name ++ "\")"

def qty (dimension : CapacityDimension) (amount : UInt64) : Quantity :=
  (∅ : Quantity).insert dimension amount

def Occupancy.isUsed (self : Occupancy) (node : NodeId) : Bool := !(self.usedOn node).isEmpty

namespace Select

inductive PackMode where
  | pack | spread
  deriving DecidableEq

def PackMode.debugName : PackMode → String
  | .pack => "Pack"
  | .spread => "Spread"

/-- Packing is the default of every class; the last preference wins. -/
def packMode (request : Request) : PackMode :=
  request.preferences.foldl (fun mode preference =>
    match preference with
    | .pack => .pack
    | .spread => .spread
    | .preferAttr _ _ => mode) .pack

structure TopologyFailure where
  constraint : Nat
  left : NodeId
  right : NodeId

/-- The first rejection each constraint caused. -/
structure TopologyTrace where
  failures : OrdMap Nat TopologyFailure

def TopologyTrace.record (trace : TopologyTrace) (failure : TopologyFailure) : TopologyTrace :=
  ⟨trace.failures.insertIfNew failure.constraint failure⟩

abbrev SelectM := EStateM Error TopologyTrace

structure SelectCtx where
  graph : Graph
  occupancy : Occupancy
  request : Request
  mode : PackMode
  quarantine : List NodeId

structure ScoreCtx where
  graph : Graph
  occupancy : Occupancy
  request : Request
  already : List (List Claim)
  mode : PackMode
  memoryWant : UInt64

def SelectCtx.score (ctx : SelectCtx) (already : List (List Claim)) (memoryWant : UInt64) :
    ScoreCtx where
  graph := ctx.graph
  occupancy := ctx.occupancy
  request := ctx.request
  already
  mode := ctx.mode
  memoryWant

/-! Candidates. -/

def isConsumableNeed (need : Need) : Bool :=
  need.kind = .memory || need.quantity.keys.any fun dimension => dimension ≠ .count

def consumableQuantity (need : Need) : Quantity :=
  if need.kind = .memory then qty .bytes (quantityGet need.quantity .bytes) else need.quantity

/-- What one node must have to serve the need. -/
def needUnit (need : Need) : Quantity :=
  if isConsumableNeed need then consumableQuantity need else qty .count 1

def isBlocked (graph : Graph) (quarantine : List NodeId) (id : NodeId) : Bool :=
  id ∈ quarantine || (graph.ancestors id).any fun ancestor => ancestor ∈ quarantine

/-- Whether a node of the right class is a candidate. -/
def offers (graph : Graph) (occupancy : Occupancy) (need : Need) (quarantine : List NodeId)
    (id : NodeId) : Except Error Bool := do
  let node ← okOr (graph.node id) (.unknownNode id)
  match graph.claimBindingForQuantity id (needUnit need) with
  | .error _ => return false
  | .ok _ =>
    if isBlocked graph quarantine node.id then
      return false
    else if need.filters.any fun filter => node.attrs[filter.key]? ≠ some filter.value then
      return false
    else
      occupancy.canCover graph ⟨id, needUnit need⟩

def keepCandidates (offers : NodeId → Except Error Bool) : List NodeId → Except Error (List NodeId)
  | [] => return []
  | id :: rest => do
    let keep ← offers id
    let kept ← keepCandidates offers rest
    return if keep then id :: kept else kept

def candidates (graph : Graph) (occupancy : Occupancy) (need : Need) (quarantine : List NodeId) :
    Except Error (List NodeId) := do
  refuseIf (need.kind = .dataObject)
    (.refused "data objects are locality hints, not claimable resources")
  keepCandidates (offers graph occupancy need quarantine) (graph.nodesOfClass need.kind)

/-! Scores. -/

def extras (already : List (List Claim)) (chosen : List Claim) : List Claim :=
  already.flatten ++ chosen

def machineLoad (graph : Graph) (occupancy : Occupancy) (machine : NodeId) (extra : List Claim) : Nat :=
  (graph.descendants machine).countP fun id =>
    occupancy.isUsed id || extra.any fun claim => claim.node = id

/-- How well the node sits with what is already on its machine. -/
def machineScore (ctx : ScoreCtx) (chosen : List Claim) (node : NodeId) : Int :=
  match ctx.graph.machineOf node with
  | none => 0
  | some machine =>
    let extras := extras ctx.already chosen
    let sameRequest : Int := extras.countP fun claim => ctx.graph.machineOf claim.node = some machine
    let load : Int := machineLoad ctx.graph ctx.occupancy machine extras
    match ctx.mode with
    | .pack =>
      100 * sameRequest + 10 * load +
        if extras.any fun claim => ctx.graph.satisfies node claim.node (.sameAncestor .numa)
          then 50 else 0
    | .spread => -(100 * sameRequest) - 10 * load

def preferenceScore (ctx : ScoreCtx) (node : NodeId) : Int :=
  1000000 * (ctx.request.preferences.countP fun preference =>
    match preference with
    | .preferAttr key value => (ctx.graph.node node).any fun item => item.attrs[key]? = some value
    | _ => false : Nat)

/-- Duplicate data ids count once. -/
def localityScore (ctx : ScoreCtx) (node : NodeId) : Int :=
  10000 * (ctx.request.data.dedup.countP fun data => ctx.graph.caches node data : Nat)

def scoreNode (ctx : ScoreCtx) (chosen : List Claim) (node : NodeId) : Except Error Int := do
  let score := machineScore ctx chosen node + preferenceScore ctx node + localityScore ctx node -
    (if (ctx.graph.degradedAncestor node).isSome then 20000 else 0)
  if 0 < ctx.memoryWant then
    let remaining ← ctx.occupancy.remaining ctx.graph node
    let leftover : Int :=
      (min (saturatingSub (quantityGet remaining .bytes) ctx.memoryWant / 1048576) 4000).toNat
    match ctx.mode with
    | .pack => return score - leftover
    | .spread => return score + leftover
  else
    return score

/-- Highest score first, ties by ascending id. -/
def ranksBefore (left right : Int × NodeId) : Prop :=
  right.1 < left.1 ∨ (left.1 = right.1 ∧ (compare left.2 right.2).isLE)

instance (left right : Int × NodeId) : Decidable (ranksBefore left right) :=
  inferInstanceAs (Decidable (_ ∨ _))

def rank (ctx : ScoreCtx) (chosen : List Claim) (candidates : List NodeId) :
    Except Error (List NodeId) := do
  let scored ← candidates.mapM fun node => do
    let score ← scoreNode ctx chosen node
    return (score, node)
  return (scored.insertionSort ranksBefore).map Prod.snd

/-! Topology. -/

/-- The first pair that breaks a constraint; a constraint on a need without a
selection yet is not evaluated. -/
def topologyFailure (graph : Graph) (picked : List (List Claim)) (request : Request) :
    Option TopologyFailure :=
  request.topology.zipIdx.findSome? fun (constraint, index) =>
    match picked[constraint.left]?, picked[constraint.right]? with
    | some lefts, some rights =>
      lefts.findSome? fun left => rights.findSome? fun right =>
        if graph.satisfies left.node right.node constraint.relation then none
        else some ⟨index, left.node, right.node⟩
    | _, _ => none

def claimsAreUnique (picked : List (List Claim)) : Bool :=
  (picked.flatten.map Claim.node).Nodup

def topologyHolds (graph : Graph) (picked : List (List Claim)) (request : Request) : Bool :=
  claimsAreUnique picked && (topologyFailure graph picked request).isNone

/-- Only a broken constraint is traced, not a repeated node. -/
def traceTopology (graph : Graph) (picked : List (List Claim)) (request : Request)
    (trace : TopologyTrace) : TopologyTrace :=
  if claimsAreUnique picked then
    match topologyFailure graph picked request with
    | some failure => trace.record failure
    | none => trace
  else
    trace

def topologyHoldsTraced (graph : Graph) (picked : List (List Claim)) (request : Request) :
    SelectM Bool := do
  modify (traceTopology graph picked request)
  return topologyHolds graph picked request

/-! Explanations. -/

def selectionNote (graph : Graph) (request : Request) (node : NodeId) (score : Int) : String :=
  let dataLocal := if request.data.any fun data => graph.caches node data then " data-local" else ""
  let degraded := if (graph.degradedAncestor node).isSome then " health-degraded" else ""
  s!"{node} score={score}{dataLocal}{degraded}"

/-- Visit the claims of one group in order, each with those before it. -/
def visitGroup {α : Type} (visit : List Claim → Claim → Except Error α) :
    List Claim → List Claim → Except Error (List α)
  | _, [] => return []
  | chosen, claim :: rest => do
    let here ← visit chosen claim
    let more ← visitGroup visit (chosen ++ [claim]) rest
    return here :: more

/-- Visit every claim in the context in which it was chosen. -/
def visitPicked {α : Type} (ctx : SelectCtx) (visit : ScoreCtx → List Claim → Claim → Except Error α) :
    List (List Claim) → List (List Claim × Need) → Except Error (List α)
  | _, [] => return []
  | already, (group, need) :: rest => do
    let memoryWant := quantityGet (consumableQuantity need) .bytes
    let here ← visitGroup (visit (ctx.score already memoryWant)) [] group
    let more ← visitPicked ctx visit (already ++ [group]) rest
    return here ++ more

def selectionNotes (ctx : SelectCtx) (picked : List (List Claim)) : Except Error (List String) :=
  visitPicked ctx (fun scoring chosen claim => do
    let score ← scoreNode scoring chosen claim.node
    return selectionNote ctx.graph ctx.request claim.node score) [] (picked.zip ctx.request.needs)

/-- What the trace says of a constraint whose needs are both selected. -/
def tracedConstraints {α : Type} (request : Request) (picked : List (List Claim))
    (trace : TopologyTrace)
    (describe : Nat → TopologyConstraint → TopologyFailure → List Claim → List Claim → α) : List α :=
  trace.failures.toList.filterMap fun (index, failure) =>
    match request.topology[index]? with
    | none => none
    | some constraint =>
      match picked[constraint.left]?, picked[constraint.right]? with
      | some left, some right => some (describe index constraint failure left right)
      | _, _ => none

def placementReasons (ctx : SelectCtx) (picked : List (List Claim)) (trace : TopologyTrace) :
    Except Error (List PlacementReason) := do
  let scores ← visitPicked ctx (fun scoring chosen claim => do
    let score ← scoreNode scoring chosen claim.node
    let dataLocal := sortAsc (ctx.request.data.filter fun data =>
      ctx.graph.caches claim.node data).dedup
    return PlacementReason.candidateScore claim.node score dataLocal
      (ctx.graph.degradedAncestor claim.node)) [] (picked.zip ctx.request.needs)
  return scores ++ tracedConstraints ctx.request picked trace
    fun index constraint failure left right =>
      .topologyConstraint index constraint.relation (left.map Claim.node) (right.map Claim.node)
        (some (failure.left, failure.right))

def joinNodes (nodes : List NodeId) : String := ",".intercalate (nodes.map toString)

def claimNodes (claims : List Claim) : String := joinNodes (claims.map Claim.node)

def ancestorNodes (graph : Graph) (claims : List Claim) (kind : ResourceClass) : String :=
  joinNodes (sortAsc (claims.filterMap fun claim => graph.ancestorOfClass claim.node kind).dedup)

def relationName : TopologyRelation → String
  | .sameAncestor kind => s!"same-ancestor({kind})"
  | .differentAncestor kind => s!"different-ancestor({kind})"
  | .contains => "contains"
  | .connected => "connected"
  | .cachedOn => "cached-on"

/-- The selected sides of a constraint. -/
def selectedSides (graph : Graph) (constraint : TopologyConstraint) (left right : List Claim) : String :=
  let leftNeed := s!"need[{constraint.left}]={claimNodes left}"
  let rightNeed := s!"need[{constraint.right}]={claimNodes right}"
  match constraint.relation with
  | .sameAncestor kind =>
    s!"selected {leftNeed} and {rightNeed} under {kind} {ancestorNodes graph left kind}"
  | .differentAncestor kind =>
    s!"selected {leftNeed} under {kind} {ancestorNodes graph left kind} and " ++
      s!"{rightNeed} under {kind} {ancestorNodes graph right kind}"
  | .contains => s!"selected containment-related {leftNeed} and {rightNeed}"
  | .connected => s!"selected connected {leftNeed} and {rightNeed}"
  | .cachedOn => s!"selected cache-related {leftNeed} and {rightNeed}"

def topologyNotes (graph : Graph) (picked : List (List Claim)) (request : Request)
    (trace : TopologyTrace) : List String :=
  tracedConstraints request picked trace fun index constraint failure left right =>
    s!"topology[{index}] {relationName constraint.relation} constrained placement " ++
      s!"(rejected {failure.left} vs {failure.right}); " ++ selectedSides graph constraint left right

/-- The note list at the end of a summary. -/
def notesText (notes : List String) : String :=
  if notes.isEmpty then "" else "; " ++ "; ".intercalate notes

/-! Greedy selection. -/

/-- The first ranked node that covers the whole quantity. -/
def takeWhole (ctx : ScoreCtx) (wanted : Quantity) :
    List NodeId → SelectM (Option (List Claim × List String))
  | [] => return none
  | node :: rest => do
    let claim : Claim := ⟨node, wanted⟩
    let covered ← attempt (ctx.occupancy.canCover ctx.graph claim)
    if covered then
      let holds ← topologyHoldsTraced ctx.graph (ctx.already ++ [[claim]]) ctx.request
      if holds then
        let score ← attempt (scoreNode ctx [] node)
        return some ([claim], [selectionNote ctx.graph ctx.request node score])
      else
        takeWhole ctx wanted rest
    else
      takeWhole ctx wanted rest

/-- One unit from each ranked node, until there are enough. -/
def takeUnits (ctx : ScoreCtx) (count : UInt64) :
    List Claim → List String → List NodeId → SelectM (List Claim × List String)
  | chosen, notes, [] => return (chosen, notes)
  | chosen, notes, node :: rest =>
    if count.toNat ≤ chosen.length then
      return (chosen, notes)
    else do
      let claim : Claim := ⟨node, qty .count 1⟩
      let holds ← topologyHoldsTraced ctx.graph (ctx.already ++ [chosen ++ [claim]]) ctx.request
      if holds then
        let score ← attempt (scoreNode ctx chosen node)
        takeUnits ctx count (chosen ++ [claim])
          (notes ++ [selectionNote ctx.graph ctx.request node score]) rest
      else
        takeUnits ctx count chosen notes rest

/-- Units may land on any machine. -/
def selectSpread (ctx : ScoreCtx) (need : Need) (candidates : List NodeId) (count : UInt64) :
    SelectM (List Claim × List String) := do
  let ranked ← attempt (rank ctx [] candidates)
  let (chosen, notes) ← takeUnits ctx count [] [] ranked
  attempt (refuseIf (chosen.length ≠ count.toNat)
    (.refused s!"need {need.kind.debugText} x{count} found only {chosen.length}"))
  return (chosen, notes)

/-- All units on the first machine, in ranked order, that has enough. -/
def takeOnMachine (ctx : ScoreCtx) (count : UInt64) (ranked : List NodeId) :
    List NodeId → SelectM (Option (List Claim × List String))
  | [] => return none
  | machine :: rest => do
    let (chosen, notes) ← takeUnits ctx count [] []
      (ranked.filter fun node => ctx.graph.machineOf node = some machine)
    if chosen.length = count.toNat then
      return some (chosen, notes)
    else
      takeOnMachine ctx count ranked rest

/-- Satisfy one need, within the allowed nodes if a set is given. -/
def selectNeedIn (ctx : SelectCtx) (need : Need) (already : List (List Claim))
    (allowed : Option (List NodeId)) : SelectM (List Claim × List String) := do
  let found ← attempt (candidates ctx.graph ctx.occupancy need ctx.quarantine)
  let found := found.filter fun node => allowed.all fun nodes => node ∈ nodes
  attempt (refuseIf (found = [])
    (.refused s!"no {need.kind.debugText} node within the allowed set"))
  if isConsumableNeed need then
    let wanted := consumableQuantity need
    attempt (refuseIf (wanted.isEmpty ∨ (OrdMap.vals wanted).all fun amount => amount = 0)
      (.refused (if need.kind = .memory then "memory need has zero bytes"
        else s!"need {need.kind.debugText} has no positive capacity")))
    let memoryWant := quantityGet wanted .bytes
    let scoring := ctx.score already memoryWant
    let ranked ← attempt (rank scoring [] found)
    let taken ← takeWhole scoring wanted ranked
    attempt (okOr taken (.refused (if need.kind = .memory
      then s!"no memory node has {memoryWant} free bytes"
      else s!"no {need.kind.debugText} node has the requested capacity")))
  else
    let count := max (quantityGet need.quantity .count) 1
    let scoring := ctx.score already 0
    if ctx.request.machineLocal then
      let ranked ← attempt (rank scoring [] found)
      let machines := (ranked.filterMap ctx.graph.machineOf).eraseDups
      let taken ← takeOnMachine scoring count ranked machines
      attempt (okOr taken
        (.refused s!"need {need.kind.debugText} x{count} does not fit on any single machine"))
    else
      selectSpread scoring need found count

def selectNeeds (ctx : SelectCtx) (allowed : Option (List NodeId)) :
    List (List Claim) → List String → List Need → SelectM (List (List Claim) × List String)
  | picked, notes, [] => return (picked, notes)
  | picked, notes, need :: rest => do
    let (claims, needNotes) ← selectNeedIn ctx need picked allowed
    selectNeeds ctx allowed (picked ++ [claims]) (notes ++ needNotes) rest

/-- Needs may land on any machines. -/
def selectAcross (ctx : SelectCtx) : SelectM Allocation := do
  let (picked, notes) ← selectNeeds ctx none [] [] ctx.request.needs
  attempt (refuseIf (¬topologyHolds ctx.graph picked ctx.request)
    (.refused "topology constraints were not satisfied"))
  let trace ← get
  let notes := notes ++ topologyNotes ctx.graph picked ctx.request trace
  let reasons ← attempt (placementReasons ctx picked trace)
  let claims := picked.flatten
  return {
    claims
    graphRevision := ctx.graph.revision
    explanation := ⟨s!"{ctx.request.requestClass.debugName} {ctx.mode.debugName} selected " ++
      s!"{claims.length} claims{notesText notes}", reasons⟩ }

/-! Search of one machine. -/

structure MachineSearch where
  trace : TopologyTrace
  remaining : Nat
  picked : List (List Claim)

abbrev SearchM := EStateM Error MachineSearch

namespace MachineSearch

def fallbackSearchBudget : Nat := 4096

/-- Use up one unit of the budget. -/
def consume : SearchM Bool := do
  let self ← get
  if self.remaining = 0 then
    return false
  else do
    modify fun self => { self with remaining := self.remaining - 1 }
    return true

/-- Select `claims` for the need at `index`. -/
def pick (index : Nat) (claims : List Claim) : SearchM Unit :=
  modify fun self => { self with picked := self.picked.set index claims }

def holdsTraced (ctx : SelectCtx) : SearchM Bool := do
  let self ← get
  modify fun self => { self with trace := traceTopology ctx.graph self.picked ctx.request self.trace }
  return topologyHolds ctx.graph self.picked ctx.request

/-- Try each ranked node for the whole quantity, then the needs after it. -/
def tryWhole (ctx : SelectCtx) (index : Nat) (wanted : Quantity) (next : SearchM Bool) :
    List NodeId → SearchM Bool
  | [] => return false
  | node :: rest => do
    let budgeted ← consume
    if budgeted then
      let claim : Claim := ⟨node, wanted⟩
      let covered ← attempt (ctx.occupancy.canCover ctx.graph claim)
      if covered then
        pick index [claim]
        let holds ← holdsTraced ctx
        let done ← if holds then next else pure false
        if done then
          return true
        else do
          pick index []
          tryWhole ctx index wanted next rest
      else
        tryWhole ctx index wanted next rest
    else
      return false

/-- Try the groups of `count` nodes that extend `chosen` by ranked nodes. -/
def group (ctx : SelectCtx) (index : Nat) (count : UInt64) (next : SearchM Bool) :
    List Claim → List NodeId → SearchM Bool
  | chosen, [] => if chosen.length = count.toNat then next else return false
  | chosen, node :: rest =>
    if chosen.length = count.toNat then
      next
    else do
      let budgeted ← consume
      if budgeted then
        let claim : Claim := ⟨node, qty .count 1⟩
        let covered ← attempt (ctx.occupancy.canCover ctx.graph claim)
        if covered then
          pick index (chosen ++ [claim])
          let holds ← holdsTraced ctx
          let done ← if holds then group ctx index count next (chosen ++ [claim]) rest else pure false
          if done then
            return true
          else do
            pick index chosen
            group ctx index count next chosen rest
        else
          group ctx index count next chosen rest
      else
        return false

def needs (ctx : SelectCtx) (allowed : List NodeId) : Nat → List Need → SearchM Bool
  | _, [] => holdsTraced ctx
  | index, need :: rest => do
    let self ← get
    let found ← attempt (candidates ctx.graph ctx.occupancy need ctx.quarantine)
    let found := found.filter fun node => node ∈ allowed
    if found = [] then
      return false
    else
      let memoryWant := quantityGet (consumableQuantity need) .bytes
      let ranked ← attempt (rank
        { ctx.score self.picked memoryWant with mode := packMode ctx.request } [] found)
      if isConsumableNeed need then
        tryWhole ctx index (consumableQuantity need) (needs ctx allowed (index + 1) rest) ranked
      else
        let count := max (quantityGet need.quantity .count) 1
        group ctx index count (needs ctx allowed (index + 1) rest) [] ranked

end MachineSearch

/-- Search a machine from scratch; the trace is shared with the caller. -/
def searchMachine (ctx : SelectCtx) (allowed : List NodeId) : SelectM (Option (List (List Claim))) :=
  fun trace =>
    let start : MachineSearch :=
      ⟨trace, MachineSearch.fallbackSearchBudget, ctx.request.needs.map fun _ => []⟩
    match MachineSearch.needs ctx allowed 0 ctx.request.needs start with
    | .ok true search => .ok (some search.picked) search.trace
    | .ok false search => .ok none search.trace
    | .error e search => .error e search.trace

/-! Whole-machine placement. -/

def machineAllocation (ctx : SelectCtx) (machine : NodeId) (claims : List Claim)
    (notes : List String) (reasons : List PlacementReason) : Allocation where
  claims
  graphRevision := ctx.graph.revision
  explanation := ⟨s!"{ctx.request.requestClass.debugName} {ctx.mode.debugName} selected " ++
    s!"{claims.length} claims on {machine}{notesText notes}", .machineSelected machine :: reasons⟩

/-- The allocation for what was picked on a machine. -/
def grantOnMachine (ctx : SelectCtx) (machine : NodeId) (picked : List (List Claim))
    (notes : List String) : SelectM Allocation := do
  let trace ← get
  let notes := notes ++ topologyNotes ctx.graph picked ctx.request trace
  let reasons ← attempt (placementReasons ctx picked trace)
  return machineAllocation ctx machine picked.flatten notes reasons

/-- The first machine, by ascending id, that fits every need. -/
def selectOneMachine (ctx : SelectCtx) : List NodeId → SelectM Allocation
  | [] => throw (.refused (if ctx.request.topology.isEmpty
      then "no single machine hosts every need of this workload"
      else "no single machine satisfies every need and topology constraint of this workload"))
  | machine :: rest =>
    if isBlocked ctx.graph ctx.quarantine machine then
      selectOneMachine ctx rest
    else do
      let allowed := machine :: ctx.graph.descendants machine
      let greedy ← observe (selectNeeds ctx (some allowed) [] [] ctx.request.needs)
      match greedy.filter fun found => topologyHolds ctx.graph found.1 ctx.request with
      | some (picked, notes) => grantOnMachine ctx machine picked notes
      | none =>
        if ctx.request.topology.isEmpty then
          selectOneMachine ctx rest
        else do
          match ← searchMachine ctx allowed with
          | some picked => do
            let notes ← attempt (selectionNotes ctx picked)
            grantOnMachine ctx machine picked notes
          | none => selectOneMachine ctx rest

end Select

open Select in
def select (graph : Graph) (occupancy : Occupancy) (request : Request) (quarantine : List NodeId) :
    Except Error Allocation := do
  refuseIf (request.topology.any fun constraint =>
      request.needs.length ≤ constraint.left || request.needs.length ≤ constraint.right)
    (.refused "topology constraint names a nonexistent need")
  let ctx : SelectCtx := ⟨graph, occupancy, request, packMode request, quarantine⟩
  if request.machineLocal && 1 < request.needs.length then
    conclude (selectOneMachine ctx (graph.nodesOfClass .machine)) ⟨∅⟩
  else
    conclude (selectAcross ctx) ⟨∅⟩

namespace Cluster

/-- The nodes placement avoids. -/
def placementBlocked (self : Cluster) : List NodeId :=
  ((OrdMap.vals self.graph.nodes).filter fun node =>
    !(self.nodeState node.id).any NodeState.isSchedulable).map Node.id

def allocate (self : Cluster) (request : Request) : Except Error Allocation :=
  select self.graph self.occupancy request self.placementBlocked

end Cluster
end Archon.Kernel
