import Archon.Kernel.Admit

/-! Admission with its trace: the rank each queued request was tried at and what
came of it. The trace observes; what is admitted does not depend on it. -/
namespace Archon.Kernel
open Select

/-! The text of an error. -/

def LeaseState.debugName : LeaseState → String
  | .reserved => "Reserved"
  | .preparing => "Preparing"
  | .active => "Active"
  | .released => "Released"
  | .expired => "Expired"
  | .revoked => "Revoked"
  | .failed => "Failed"
  | .completed => "Completed"

def BindingState.debugName : BindingState → String
  | .preparing => "Preparing"
  | .active => "Active"
  | .released => "Released"
  | .fenced => "Fenced"
  | .failed => "Failed"

def Error.text : Error → String
  | .unknownNode id => s!"unknown node {id}"
  | .unknownLease id => s!"unknown lease {id}"
  | .unknownBinding id => s!"unknown binding {id}"
  | .duplicateLease id => s!"duplicate lease {id}"
  | .duplicateBinding id => s!"duplicate binding {id}"
  | .notAgreed => "cluster has no agreement"
  | .quarantined id => s!"node {id} is quarantined"
  | .staleSession expected got => s!"stale session: expected {expected}, got {got}"
  | .staleEpoch current got => s!"stale epoch: current {current}, got {got}"
  | .staleGraphRevision current got => s!"stale graph revision: current {current}, got {got}"
  | .overlap node => s!"exclusive overlap on {node}"
  | .childEscapesParent child parent => s!"child {child} escapes parent {parent}"
  | .parentNotActive parent => s!"parent {parent} is not active"
  | .leaseState lease state => s!"lease {lease} in state {state.debugName}"
  | .bindingState binding state => s!"binding {binding} in state {state.debugName}"
  | .bindingsNotPrepared lease => s!"lease {lease} is missing prepared bindings"
  | .noAgent machine => s!"no agent session for {machine}"
  | .renewNotLater => "renewal must extend expires_at"
  | .expireNotDue => "lease has not reached expires_at"
  | .prepareDeadlinePassed lease => s!"lease {lease} passed its prepare deadline"
  | .leaseExpired lease => s!"lease {lease} expired before activation"
  | .hasLiveDescendants lease => s!"lease {lease} still has live descendants"
  | .fenceMismatch binding expected got => s!"binding {binding} fence {got} does not match {expected}"
  | .invalidTopology reason => s!"invalid topology: {reason}"
  | .capacityBelowOccupancy node => s!"node {node} capacity would drop below occupied units"
  | .duplicateClaim node => s!"allocation claims node {node} more than once"
  | .unclaimableNode node => s!"node {node} is not a claimable resource"
  | .childBindingRefused lease => s!"lease {lease} is a child; only root leases hold Bindings"
  | .unquarantineBlocked node => s!"cannot unquarantine {node} before fence ack"
  | .resourceBusy node => s!"resource {node} still has live authority"
  | .refused explanation => s!"refused: {explanation}"
  | .invalid reason => s!"invalid command: {reason}"

/-! The trace. -/

inductive AdmissionOutcome where
  | notEvaluated
  | overQuota
  | placementRefused (explanation : String)
  | blocked (shadow : Option UInt64)
  | backfillUnsafe (protectedHeads : Nat)
  | selected (backfilled : Bool)
  deriving DecidableEq

structure AdmissionCandidateTrace where
  rank : Nat
  request : RequestId
  owner : OwnerId
  priority : UInt32
  submittedAt : UInt64
  ownerWeight : Option UInt32
  weightedDominantShare : Option Nat
  outcome : AdmissionOutcome
  deriving DecidableEq

structure AdmissionTrace where
  candidates : List AdmissionCandidateTrace
  deriving DecidableEq

namespace Admit

/-- One entry for each queued request in policy order, with what came of it. -/
def buildAdmissionTrace (order : List Queued) (usage : OrdMap OwnerId ClassUsage)
    (capacity : ClassUsage) (policy : AdmissionPolicy) (outcomes : List AdmissionOutcome) :
    AdmissionTrace :=
  ⟨(order.zip outcomes).zipIdx.map fun ((queued, outcome), rank) =>
    let ownerWeight := if policy.fairShare then
      some (max (policy.ownerWeights[queued.owner]?.getD 1) 1) else none
    { rank
      request := queued.request.id
      owner := queued.owner
      priority := queued.request.priority
      submittedAt := queued.submittedAt
      ownerWeight
      weightedDominantShare := ownerWeight.map fun weight =>
        weightedDominantShare (usage[queued.owner]?.getD ∅) capacity weight
      outcome }⟩

def notEvaluated (order : List Queued) : List AdmissionOutcome :=
  order.map fun _ => .notEvaluated

/-! Plain admission. -/

/-- The first request within budget that can be placed. -/
def explainFrom (graph : Graph) (occupancy : Occupancy) (quarantine : List NodeId)
    (policy : AdmissionPolicy) (usage : OrdMap OwnerId ClassUsage) :
    List Queued → Option Admission × List AdmissionOutcome
  | [] => (none, [])
  | queued :: rest =>
    let next := fun outcome =>
      let (admission, outcomes) := explainFrom graph occupancy quarantine policy usage rest
      (admission, outcome :: outcomes)
    if !withinBudget (usage[queued.owner]?.getD ∅) queued.request policy.ownerCeiling then
      next .overQuota
    else
      match select graph occupancy queued.request quarantine with
      | .ok allocation =>
        (some ⟨queued.request, queued.owner, allocation⟩, .selected false :: notEvaluated rest)
      | .error e => next (.placementRefused e.text)

def admitWithPolicyExplained (graph : Graph) (occupancy : Occupancy) (quarantine : List NodeId)
    (policy : AdmissionPolicy) (queue : List Queued) (leases : OrdMap LeaseId Lease)
    (openBindings : List LeaseId) : Option Admission × AdmissionTrace :=
  let usage := ownerUsage graph leases openBindings
  let capacity := claimableCapacity graph
  let order := orderQueueWithPolicy queue usage capacity policy
  let (admission, outcomes) := explainFrom graph occupancy quarantine policy usage order
  (admission, buildAdmissionTrace order usage capacity policy outcomes)

def admitWithPolicy (graph : Graph) (occupancy : Occupancy) (quarantine : List NodeId)
    (policy : AdmissionPolicy) (queue : List Queued) (leases : OrdMap LeaseId Lease)
    (openBindings : List LeaseId) : Option Admission :=
  (admitWithPolicyExplained graph occupancy quarantine policy queue leases openBindings).1

/-! Admission with backfill. -/

def explainBackfillFrom (graph : Graph) (occupancy : Occupancy) (quarantine : List NodeId)
    (exclusions : RequestExclusions) (policy : AdmissionPolicy) (usage : OrdMap OwnerId ClassUsage)
    (ctx : BackfillCtx) : List BlockedHead → List Queued → Option Admission × List AdmissionOutcome
  | _, [] => (none, [])
  | blocked, queued :: rest =>
    let next := fun blocked outcome =>
      let (admission, outcomes) :=
        explainBackfillFrom graph occupancy quarantine exclusions policy usage ctx blocked rest
      (admission, outcome :: outcomes)
    if !withinBudget (usage[queued.owner]?.getD ∅) queued.request policy.ownerCeiling then
      next blocked .overQuota
    else
      let hard := exclusions[queued.request.id]?.getD []
      let effective := quarantine ++ hard
      match select graph occupancy queued.request effective with
      | .ok allocation =>
        let claims := allocation.claims.map Claim.node
        let finishes := saturatingAdd ctx.now queued.request.lifetime
        if blocked.all (sparesHead finishes claims) then
          (some ⟨queued.request, queued.owner, allocation⟩,
            .selected (!blocked.isEmpty) :: notEvaluated rest)
        else
          next blocked (.backfillUnsafe blocked.length)
      | .error e =>
        match select graph occupancy queued.request hard with
        | .ok allocation => next (blocked ++ [headAt none allocation]) (.blocked none)
        | .error _ =>
          match shadowHead graph effective ctx queued.request with
          | some head => next (blocked ++ [head]) (.blocked head.shadow)
          | none => next blocked (.placementRefused e.text)

def admitBackfillWithPolicyExplained (graph : Graph) (occupancy : Occupancy)
    (quarantine : List NodeId) (exclusions : RequestExclusions) (policy : AdmissionPolicy)
    (queue : List Queued) (ctx : BackfillCtx) : Option Admission × AdmissionTrace :=
  let usage := ownerUsage graph ctx.leases ctx.openBindings
  let capacity := claimableCapacity graph
  let order := orderQueueWithPolicy queue usage capacity policy
  let (admission, outcomes) :=
    explainBackfillFrom graph occupancy quarantine exclusions policy usage ctx [] order
  (admission, buildAdmissionTrace order usage capacity policy outcomes)

/-! What the loops do. -/

section Loops
variable {graph : Graph} {occupancy : Occupancy} {quarantine : List NodeId}
  {exclusions : RequestExclusions} {policy : AdmissionPolicy} {usage : OrdMap OwnerId ClassUsage}
  {ctx : BackfillCtx} {queued : Queued} {admission : Admission}

/-- The admission is of this entry, on these nodes avoided. -/
structure Admits (graph : Graph) (occupancy : Occupancy) (avoided : List NodeId)
    (policy : AdmissionPolicy) (usage : OrdMap OwnerId ClassUsage) (queued : Queued)
    (admission : Admission) : Prop where
  request : admission.request = queued.request
  owner : admission.owner = queued.owner
  budget : withinBudget (usage[queued.owner]?.getD ∅) queued.request policy.ownerCeiling
  placed : select graph occupancy queued.request avoided = .ok admission.allocation

theorem explainFrom_admits {order : List Queued}
    (h : (explainFrom graph occupancy quarantine policy usage order).1 = some admission) :
    ∃ queued ∈ order, Admits graph occupancy quarantine policy usage queued admission := by
  induction order with
  | nil => simp [explainFrom] at h
  | cons head rest ih =>
    have hlater : (explainFrom graph occupancy quarantine policy usage rest).1 = some admission →
        ∃ queued ∈ head :: rest, Admits graph occupancy quarantine policy usage queued admission := by
      intro hrest
      obtain ⟨queued, hmem, hadmits⟩ := ih hrest
      exact ⟨queued, List.mem_cons_of_mem _ hmem, hadmits⟩
    simp only [explainFrom] at h
    split at h
    · exact hlater h
    · rename_i hbudget
      split at h
      · rename_i allocation hselect
        cases h
        exact ⟨head, List.mem_cons_self, rfl, rfl, by simpa using hbudget, hselect⟩
      · exact hlater h

/-- All that admission with backfill goes by. -/
structure Backfill where
  graph : Graph
  occupancy : Occupancy
  quarantine : List NodeId
  exclusions : RequestExclusions
  policy : AdmissionPolicy
  usage : OrdMap OwnerId ClassUsage
  ctx : BackfillCtx

namespace Backfill

def explainFrom (b : Backfill) : List BlockedHead → List Queued →
    Option Admission × List AdmissionOutcome :=
  explainBackfillFrom b.graph b.occupancy b.quarantine b.exclusions b.policy b.usage b.ctx

/-- The nodes a request never uses. -/
def hard (b : Backfill) (queued : Queued) : List NodeId :=
  b.exclusions[queued.request.id]?.getD []

/-- The nodes a request does not use now. -/
def effective (b : Backfill) (queued : Queued) : List NodeId := b.quarantine ++ b.hard queued

def affords (b : Backfill) (queued : Queued) : Bool :=
  withinBudget (b.usage[queued.owner]?.getD ∅) queued.request b.policy.ownerCeiling

/-- The head a request becomes that it is within budget but cannot be placed. -/
def blockedHead (b : Backfill) (queued : Queued) : Option BlockedHead :=
  if b.affords queued then
    match select b.graph b.occupancy queued.request (b.effective queued) with
    | .ok _ => none
    | .error _ =>
      match select b.graph b.occupancy queued.request (b.hard queued) with
      | .ok allocation => some (headAt none allocation)
      | .error _ => shadowHead b.graph (b.effective queued) b.ctx queued.request
  else
    none

/-- The entry can start, and delays none of the heads. -/
structure Starts (b : Backfill) (heads : List BlockedHead) (queued : Queued)
    (admission : Admission) : Prop where
  admits : Admits b.graph b.occupancy (b.effective queued) b.policy b.usage queued admission
  spares : heads.all (sparesHead (saturatingAdd b.ctx.now queued.request.lifetime)
    (admission.allocation.claims.map Claim.node))

/-- The outcomes report the first entry that can start, and each head before it. -/
structure Explained (b : Backfill) (heads : List BlockedHead) (before : List Queued)
    (queued : Queued) (admission : Admission) (outcomes : List AdmissionOutcome) : Prop where
  starts : b.Starts (heads ++ before.filterMap b.blockedHead) queued admission
  first : ∀ earlier other later, before = earlier ++ other :: later → ∀ admission,
    ¬b.Starts (heads ++ earlier.filterMap b.blockedHead) other admission
  heads : ∀ (rank : Nat) (other : Queued) (shadow : Option UInt64), before[rank]? = some other →
    outcomes[rank]? = some (.blocked shadow) →
    ∃ head, b.blockedHead other = some head ∧ head.shadow = shadow
  selected : ∃ backfilled, outcomes[before.length]? = some (.selected backfilled)

theorem filterMap_cons_eq {α β : Type} (f : α → Option β) (a : α) (rest : List α) :
    (a :: rest).filterMap f = (f a).toList ++ rest.filterMap f := by
  cases hvalue : f a <;> simp [hvalue]

variable {b : Backfill} {heads : List BlockedHead} {other : Queued} {outcome : AdmissionOutcome}
  {outcomes : List AdmissionOutcome}

theorem Explained.passed {before : List Queued}
    (h : b.Explained (heads ++ (b.blockedHead other).toList) before queued admission outcomes)
    (hstays : ∀ admission, ¬b.Starts heads other admission)
    (houtcome : ∀ shadow, outcome = .blocked shadow →
      ∃ head, b.blockedHead other = some head ∧ head.shadow = shadow) :
    b.Explained heads (other :: before) queued admission (outcome :: outcomes) := by
  refine ⟨?_, ?_, ?_, h.selected⟩
  · rw [filterMap_cons_eq, ← List.append_assoc]
    exact h.starts
  · intro earlier passed later hsplit admission
    rw [List.cons_eq_append_iff] at hsplit
    rcases hsplit with ⟨rfl, hhead⟩ | ⟨earlier, rfl, hrest⟩
    · obtain ⟨rfl, -⟩ := List.cons.inj hhead
      simpa using hstays admission
    · rw [filterMap_cons_eq, ← List.append_assoc]
      exact h.first earlier passed later hrest admission
  · intro rank found shadow hfound hblocked
    cases rank with
    | zero =>
      simp only [List.getElem?_cons_zero, Option.some.injEq] at hfound hblocked
      subst hfound
      exact houtcome shadow hblocked
    | succ rank => exact h.heads rank found shadow hfound hblocked

theorem explainFrom_explained {order : List Queued}
    (h : b.explainFrom heads order = (some admission, outcomes)) :
    ∃ before queued after, order = before ++ queued :: after ∧
      b.Explained heads before queued admission outcomes := by
  induction order generalizing heads outcomes with
  | nil => simp [explainFrom, explainBackfillFrom] at h
  | cons other rest ih =>
    -- whatever came of the entry, the rest is explained after the head it became
    have hpassed : ∀ outcome,
        ((b.explainFrom (heads ++ (b.blockedHead other).toList) rest).1,
          outcome :: (b.explainFrom (heads ++ (b.blockedHead other).toList) rest).2) =
            (some admission, outcomes) →
        (∀ admission, ¬b.Starts heads other admission) →
        (∀ shadow, outcome = .blocked shadow →
          ∃ head, b.blockedHead other = some head ∧ head.shadow = shadow) →
        ∃ before queued after, other :: rest = before ++ queued :: after ∧
          b.Explained heads before queued admission outcomes := by
      intro outcome hresult hstays houtcome
      obtain ⟨hfound, rfl⟩ := Prod.mk.inj hresult
      obtain ⟨before, queued, after, rfl, hexplained⟩ := ih (Prod.ext hfound rfl)
      exact ⟨other :: before, queued, after, rfl, hexplained.passed hstays houtcome⟩
    have hshort : ∀ {admission}, b.Starts heads other admission →
        b.affords other ∧ ∃ allocation, select b.graph b.occupancy other.request (b.effective other) =
          .ok allocation ∧ heads.all (sparesHead (saturatingAdd b.ctx.now other.request.lifetime)
            (allocation.claims.map Claim.node)) := by
      intro admission hstarts
      exact ⟨hstarts.admits.budget, _, hstarts.admits.placed, hstarts.spares⟩
    have hselected : ∀ {allocation}, b.affords other →
        select b.graph b.occupancy other.request (b.effective other) = .ok allocation →
        heads.all (sparesHead (saturatingAdd b.ctx.now other.request.lifetime)
          (allocation.claims.map Claim.node)) →
        (some (Admission.mk other.request other.owner allocation),
          AdmissionOutcome.selected (!heads.isEmpty) :: notEvaluated rest) =
            (some admission, outcomes) →
        ∃ before queued after, other :: rest = before ++ queued :: after ∧
          b.Explained heads before queued admission outcomes := by
      intro allocation hbudget hplaced hspares hresult
      obtain ⟨hadmission, rfl⟩ := Prod.mk.inj hresult
      cases hadmission
      refine ⟨[], other, rest, rfl, ?_, ?_, ?_, _, rfl⟩
      · exact ⟨⟨rfl, rfl, hbudget, hplaced⟩, by simpa using hspares⟩
      · intro earlier passed later hsplit
        simp at hsplit
      · intro rank found shadow hfound
        simp at hfound
    unfold explainFrom explainBackfillFrom at h
    dsimp only at h
    split at h
    · rename_i hover
      have hafford : b.affords other = false := by simpa [affords] using hover
      have hnone : b.blockedHead other = none := by simp [blockedHead, hafford]
      refine hpassed .overQuota ?_ ?_ ?_
      · rw [hnone, Option.toList_none, List.append_nil]
        exact h
      · intro admission hstarts
        rw [(hshort hstarts).1] at hafford
        cases hafford
      · rintro shadow ⟨⟩
    · rename_i hbudget
      have hafford : b.affords other := by simpa [affords] using hbudget
      split at h
      · rename_i allocation hplaced
        have hnone : b.blockedHead other = none := by
          simp only [blockedHead, effective, hard, hplaced, hafford, if_true]
        split at h
        · rename_i hspares
          exact hselected hafford hplaced hspares h
        · rename_i hdelays
          refine hpassed (.backfillUnsafe heads.length) ?_ ?_ ?_
          · rw [hnone, Option.toList_none, List.append_nil]
            exact h
          · intro admission hstarts
            obtain ⟨-, found, hfound, hspares⟩ := hshort hstarts
            cases hfound.symm.trans hplaced
            exact hdelays hspares
          · rintro shadow ⟨⟩
      · rename_i e hrefused
        have hstays : ∀ admission, ¬b.Starts heads other admission := by
          intro admission hstarts
          obtain ⟨-, found, hfound, -⟩ := hshort hstarts
          cases hfound.symm.trans hrefused
        split at h
        · rename_i allocation hplaced
          have hhead : b.blockedHead other = some (headAt none allocation) := by
            simp only [blockedHead, effective, hard, hrefused, hplaced, hafford, if_true]
          refine hpassed (.blocked none) ?_ hstays ?_
          · rw [hhead, Option.toList_some]
            exact h
          · rintro shadow ⟨⟩
            exact ⟨_, hhead, rfl⟩
        · rename_i hhard
          split at h
          · rename_i head hshadow
            have hhead : b.blockedHead other = some head := by
              simp only [blockedHead, effective, hard, hrefused, hhard, hafford, hshadow, if_true]
            refine hpassed (.blocked head.shadow) ?_ hstays ?_
            · rw [hhead, Option.toList_some]
              exact h
            · rintro shadow ⟨⟩
              exact ⟨_, hhead, rfl⟩
          · rename_i hshadow
            have hnone : b.blockedHead other = none := by
              simp only [blockedHead, effective, hard, hrefused, hhard, hafford, hshadow, if_true]
            refine hpassed (.placementRefused e.text) ?_ hstays ?_
            · rw [hnone, Option.toList_none, List.append_nil]
              exact h
            · rintro shadow ⟨⟩

end Backfill

/-- What is admitted does not depend on the trace. -/
theorem explainBackfillFrom_admission (heads : List BlockedHead) (order : List Queued) :
    (explainBackfillFrom graph occupancy quarantine exclusions policy usage ctx heads order).1 =
      backfillFrom graph occupancy quarantine exclusions policy usage ctx heads order := by
  induction order generalizing heads with
  | nil => rfl
  | cons queued rest ih =>
    simp only [explainBackfillFrom, backfillFrom]
    split
    · exact ih heads
    · cases select graph occupancy queued.request
          (quarantine ++ exclusions[queued.request.id]?.getD []) with
      | ok allocation =>
        dsimp only
        split
        · rfl
        · exact ih heads
      | error =>
        cases select graph occupancy queued.request (exclusions[queued.request.id]?.getD []) with
        | ok allocation => exact ih _
        | error =>
          cases shadowHead graph (quarantine ++ exclusions[queued.request.id]?.getD []) ctx
              queued.request with
          | some head => exact ih _
          | none => exact ih heads

theorem admitBackfillWithPolicyExplained_admission (queue : List Queued) :
    (admitBackfillWithPolicyExplained graph occupancy quarantine exclusions policy queue ctx).1 =
      admitBackfillWithPolicy graph occupancy quarantine exclusions policy queue ctx :=
  explainBackfillFrom_admission [] _

theorem buildAdmissionTrace_entry {order : List Queued} {capacity : ClassUsage}
    {outcomes : List AdmissionOutcome} {entry : AdmissionCandidateTrace}
    (h : entry ∈ (buildAdmissionTrace order usage capacity policy outcomes).candidates) :
    ∃ queued, order[entry.rank]? = some queued ∧ entry.request = queued.request.id ∧
      outcomes[entry.rank]? = some entry.outcome := by
  obtain ⟨⟨⟨queued, outcome⟩, rank⟩, hmem, rfl⟩ := List.mem_map.mp h
  have hget := List.mem_zipIdx_iff_getElem?.mp hmem
  obtain ⟨hqueued, houtcome⟩ := List.getElem?_zip_eq_some.mp hget
  exact ⟨queued, hqueued, rfl, houtcome⟩

end Loops
end Admit

/-! Over the cluster's own leases and blocks. -/

namespace Cluster

def admitWithPolicyExplained (self : Cluster) (queue : List Queued) (policy : AdmissionPolicy) :
    Option Admission × AdmissionTrace :=
  Admit.admitWithPolicyExplained self.graph self.occupancy self.placementBlocked policy queue
    self.leases self.openBindingLeases

def admitBackfillWithPolicyExplained (self : Cluster) (queue : List Queued)
    (policy : AdmissionPolicy) (exclusions : RequestExclusions) : Option Admission × AdmissionTrace :=
  Admit.admitBackfillWithPolicyExplained self.graph self.occupancy self.placementBlocked exclusions
    policy queue ⟨self.now, self.leases, self.openBindingLeases⟩

end Cluster
end Archon.Kernel
