import Archon.Kernel.Select

/-! Admission: which queued request is granted next. Requests are tried in order
of priority, fair share, submit time and id; one that cannot be placed becomes a
blocked head, and a later request may overtake it only if it cannot delay it. -/
namespace Archon.Kernel
open Select

/-- A queued request with the owner that submitted it and the time of it. -/
structure Queued where
  request : Request
  owner : OwnerId
  submittedAt : UInt64
  deriving DecidableEq

structure Admission where
  request : Request
  owner : OwnerId
  allocation : Allocation

/-- Consumption by resource class. -/
abbrev ClassUsage := OrdMap ResourceClass Quantity

structure AdmissionPolicy where
  ownerCeiling : ClassUsage
  fairShare : Bool
  ownerWeights : OrdMap OwnerId UInt32

def AdmissionPolicy.default : AdmissionPolicy := ⟨∅, false, ∅⟩

/-- Nodes a request may not use, whatever becomes free. -/
abbrev RequestExclusions := OrdMap RequestId (List NodeId)

namespace Admit

/-- Only roots are charged, so a child is not charged twice against its owner. -/
def chargedRoots (leases : OrdMap LeaseId Lease) (openBindings : List LeaseId) : List Lease :=
  (OrdMap.vals leases).filter fun lease =>
    lease.parent.isNone && leaseOccupies lease (lease.id ∈ openBindings)

def chargeLease (graph : Graph) (entry : ClassUsage) (lease : Lease) : ClassUsage :=
  (claimsByNode lease.allocation.claims).toList.foldl (fun entry (node, quantity) =>
    let kind := ((graph.node node).map Node.kind).getD .machine
    OrdMap.upsert entry kind ∅ (quantityAddAssign · quantity)) entry

def ownerUsage (graph : Graph) (leases : OrdMap LeaseId Lease) (openBindings : List LeaseId) :
    OrdMap OwnerId ClassUsage :=
  (chargedRoots leases openBindings).foldl (fun usage lease =>
    OrdMap.upsert usage lease.owner ∅ (chargeLease graph · lease)) ∅

def claimableCapacity (graph : Graph) : ClassUsage :=
  (OrdMap.vals graph.nodes).foldl (fun capacity node =>
    node.capacity.toList.foldl (fun capacity (dimension, amount) =>
      if amount = 0 || (graph.claimBinding node.id dimension).isNone then capacity
      else OrdMap.upsert capacity node.kind ∅ fun total =>
        OrdMap.upsert total dimension 0 (saturatingAdd · amount)) capacity) ∅

/-- The largest share of a dimension the owner uses, scaled and divided by the
weight. Two 64-bit factors and the scale stay below 2^128. -/
def weightedDominantShare (usage capacity : ClassUsage) (weight : UInt32) : Nat :=
  let weight := max weight.toNat 1
  usage.toList.foldl (fun dominant (kind, quantities) =>
    match capacity[kind]? with
    | none => dominant
    | some total => quantities.toList.foldl (fun dominant (dimension, used) =>
        let available := quantityGet total dimension
        if available = 0 then dominant
        else max dominant (used.toNat * 1000000000000000000 / (available.toNat * weight)))
      dominant) 0

def orderQueue (queue : List Queued) : List Queued :=
  queue.mergeSort fun left right =>
    ((compare right.request.priority left.request.priority).then
      ((compare left.submittedAt right.submittedAt).then
        (compare left.request.id right.request.id))).isLE

/-- Sorting is stable, so equal entries keep their place in the queue. -/
def orderQueueWithPolicy (queue : List Queued) (usage : OrdMap OwnerId ClassUsage)
    (capacity : ClassUsage) (policy : AdmissionPolicy) : List Queued :=
  if !policy.fairShare then
    orderQueue queue
  else
    let score := fun owner : OwnerId =>
      weightedDominantShare (usage[owner]?.getD ∅) capacity (policy.ownerWeights[owner]?.getD 1)
    queue.mergeSort fun left right =>
      ((compare right.request.priority left.request.priority).then
        ((compare (score left.owner) (score right.owner)).then
          ((compare left.submittedAt right.submittedAt).then
            (compare left.request.id right.request.id)))).isLE

/-- What a need is charged against a ceiling, as placement would grant it. -/
def needCharge (need : Need) : Quantity :=
  if need.kind = .memory then
    qty .bytes (quantityGet need.quantity .bytes)
  else if need.quantity.keys.any fun dimension => dimension ≠ .count then
    need.quantity
  else
    qty .count (max (quantityGet need.quantity .count) 1)

def withinBudget (usage : ClassUsage) (request : Request) (ownerCeiling : ClassUsage) : Bool :=
  if ownerCeiling.isEmpty then
    true
  else
    let projected := request.needs.foldl (fun projected need =>
      OrdMap.upsert projected need.kind ∅ (quantityAddAssign · (needCharge need))) usage
    ownerCeiling.toList.all fun (kind, ceiling) => quantityLe (projected[kind]?.getD ∅) ceiling

/-- A request that cannot start yet: the earliest proven time its capacity frees,
and the nodes it would take then. -/
structure BlockedHead where
  shadow : Option UInt64
  shadowClaims : List NodeId

structure BackfillCtx where
  now : UInt64
  leases : OrdMap LeaseId Lease
  openBindings : List LeaseId

def occupying (ctx : BackfillCtx) (lease : Lease) : Bool :=
  leaseOccupies lease (lease.id ∈ ctx.openBindings)

def headAt (shadow : Option UInt64) (allocation : Allocation) : BlockedHead :=
  ⟨shadow, (claimsByNode allocation.claims).keys⟩

/-- The expiry times ahead, each once and in order. -/
def shadowTimes (ctx : BackfillCtx) : List UInt64 :=
  sortAsc (((OrdMap.vals ctx.leases).filter fun lease =>
    occupying ctx lease && ctx.now < lease.expiresAt).map Lease.expiresAt).dedup

/-- A terminal lease that still occupies frees at no provable time, so it stays
in every projection but the last. -/
def shadowHead (graph : Graph) (quarantine : List NodeId) (ctx : BackfillCtx) (request : Request) :
    Option BlockedHead :=
  let project := fun except =>
    occupancyFromLeases (OrdMap.vals ctx.leases) ctx.openBindings except
  let attemptAt := fun shadow : UInt64 =>
    let except := ((OrdMap.vals ctx.leases).filter fun lease =>
      lease.state.isLive && lease.expiresAt ≤ shadow).map Lease.id
    (select graph (project except) request quarantine).toOption.map (headAt (some shadow))
  match (shadowTimes ctx).findSome? attemptAt with
  | some head => some head
  | none =>
    let all := ((OrdMap.vals ctx.leases).filter (occupying ctx)).map Lease.id
    (select graph (project all) request quarantine).toOption.map (headAt none)

/-- Whether a request that would finish at `finishes` leaves a head alone. -/
def sparesHead (finishes : UInt64) (claims : List NodeId) (head : BlockedHead) : Bool :=
  head.shadow.any (fun shadow => finishes ≤ shadow) ||
    claims.all fun node => node ∉ head.shadowClaims

def backfillFrom (graph : Graph) (occupancy : Occupancy) (quarantine : List NodeId)
    (exclusions : RequestExclusions) (policy : AdmissionPolicy) (usage : OrdMap OwnerId ClassUsage)
    (ctx : BackfillCtx) : List BlockedHead → List Queued → Option Admission
  | _, [] => none
  | blocked, queued :: rest =>
    let next := fun blocked =>
      backfillFrom graph occupancy quarantine exclusions policy usage ctx blocked rest
    if !withinBudget (usage[queued.owner]?.getD ∅) queued.request policy.ownerCeiling then
      next blocked
    else
      let hard := exclusions[queued.request.id]?.getD []
      let effective := quarantine ++ hard
      match select graph occupancy queued.request effective with
      | .ok allocation =>
        let claims := allocation.claims.map Claim.node
        let finishes := saturatingAdd ctx.now queued.request.lifetime
        if blocked.all (sparesHead finishes claims) then
          some ⟨queued.request, queued.owner, allocation⟩
        else
          next blocked
      | .error _ =>
        match select graph occupancy queued.request hard with
        | .ok allocation => next (blocked ++ [headAt none allocation])
        | .error _ =>
          match shadowHead graph effective ctx queued.request with
          | some head => next (blocked ++ [head])
          | none => next blocked

def admitBackfillWithPolicy (graph : Graph) (occupancy : Occupancy) (quarantine : List NodeId)
    (exclusions : RequestExclusions) (policy : AdmissionPolicy) (queue : List Queued)
    (ctx : BackfillCtx) : Option Admission :=
  let usage := ownerUsage graph ctx.leases ctx.openBindings
  let capacity := claimableCapacity graph
  let order := orderQueueWithPolicy queue usage capacity policy
  backfillFrom graph occupancy quarantine exclusions policy usage ctx [] order

theorem mem_orderQueueWithPolicy {queue : List Queued} {usage : OrdMap OwnerId ClassUsage}
    {capacity : ClassUsage} {policy : AdmissionPolicy} {queued : Queued} :
    queued ∈ orderQueueWithPolicy queue usage capacity policy ↔ queued ∈ queue := by
  unfold orderQueueWithPolicy orderQueue
  split <;> simp

theorem backfillFrom_mem {graph : Graph} {occupancy : Occupancy} {quarantine : List NodeId}
    {exclusions : RequestExclusions} {policy : AdmissionPolicy} {usage : OrdMap OwnerId ClassUsage}
    {ctx : BackfillCtx} {blocked : List BlockedHead} {order : List Queued} {admission : Admission}
    (h : backfillFrom graph occupancy quarantine exclusions policy usage ctx blocked order =
      some admission) :
    ∃ queued ∈ order, queued.request = admission.request ∧ queued.owner = admission.owner := by
  induction order generalizing blocked with
  | nil => simp [backfillFrom] at h
  | cons queued rest ih =>
    have hrest : ∀ {blocked}, backfillFrom graph occupancy quarantine exclusions policy usage ctx
        blocked rest = some admission → ∃ found ∈ queued :: rest,
          found.request = admission.request ∧ found.owner = admission.owner := by
      intro blocked hnext
      obtain ⟨found, hmem, hsame⟩ := ih hnext
      exact ⟨found, List.mem_cons_of_mem _ hmem, hsame⟩
    simp only [backfillFrom] at h
    split at h
    · exact hrest h
    · split at h
      · split at h
        · cases h
          exact ⟨queued, List.mem_cons_self, rfl, rfl⟩
        · exact hrest h
      · split at h
        · exact hrest h
        · split at h <;> exact hrest h

/-- What is admitted was queued. -/
theorem admitBackfillWithPolicy_mem {graph : Graph} {occupancy : Occupancy} {quarantine : List NodeId}
    {exclusions : RequestExclusions} {policy : AdmissionPolicy} {queue : List Queued}
    {ctx : BackfillCtx} {admission : Admission}
    (h : admitBackfillWithPolicy graph occupancy quarantine exclusions policy queue ctx =
      some admission) :
    ∃ queued ∈ queue, queued.request = admission.request ∧ queued.owner = admission.owner := by
  obtain ⟨queued, hmem, hsame⟩ := backfillFrom_mem h
  exact ⟨queued, mem_orderQueueWithPolicy.mp hmem, hsame⟩

end Admit

/-- Admission over the cluster's own leases and blocks. -/
def Cluster.admitBackfillWithPolicy (self : Cluster) (queue : List Queued) (policy : AdmissionPolicy)
    (exclusions : RequestExclusions) : Option Admission :=
  Admit.admitBackfillWithPolicy self.graph self.occupancy self.placementBlocked exclusions policy
    queue ⟨self.now, self.leases, self.openBindingLeases⟩

end Archon.Kernel
