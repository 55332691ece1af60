import Archon.Kernel.AdmitTrace
import Archon.Kernel.Capacity
import Archon.Kernel.Grants

/-! Backfill keeps its promise. A head is blocked by a grant it would have in a
projection that leaves some leases out; a later request is admitted only if its
lease is left out of that projection too or stays off the granted nodes, so the
grant is as good after the admission as it was before. -/
namespace Archon.Kernel
open Fallible Select Admit Holdings

theorem select_covered {graph : Graph} (hfiled : graph.Filed) {occupancy : Occupancy}
    {request : Request} {quarantine : List NodeId} {allocation : Allocation}
    (h : select graph occupancy request quarantine = .ok allocation) :
    ∀ claim ∈ allocation.claims, occupancy.canCover graph claim = .ok true := by
  intro claim hclaim
  obtain ⟨need, found, hfound, hmem, hquantity⟩ := (select_sound h).granted claim hclaim
  obtain ⟨node, hnode, -, -, hfits⟩ := (suits_of_candidate hfiled hfound hmem hquantity).fits
  exact Occupancy.canCover_ok.mpr ⟨node, hnode, hfits⟩

theorem mem_keys_claimsByNode {claims : List Claim} {node : NodeId} :
    node ∈ (claimsByNode claims).keys ↔ node ∈ claims.map Claim.node := by
  have hfold : ∀ (claims : List Claim) (out : OrdMap NodeId Quantity),
      node ∈ claims.foldl (fun out claim =>
        OrdMap.upsert out claim.node ∅ fun entry => quantityMax entry claim.quantity) out ↔
        node ∈ out ∨ node ∈ claims.map Claim.node := by
    intro claims
    induction claims with
    | nil => simp
    | cons claim claims ih =>
      intro out
      have hupsert : node ∈ OrdMap.upsert out claim.node ∅ (fun entry =>
          quantityMax entry claim.quantity) ↔ node = claim.node ∨ node ∈ out := by
        rw [Std.ExtTreeMap.mem_iff_isSome_getElem?, OrdMap.get_upsert,
          Std.ExtTreeMap.mem_iff_isSome_getElem?]
        by_cases hnode : claim.node = node
        · simp [hnode]
        · simp [hnode, Ne.symm hnode]
      rw [List.foldl_cons, ih, hupsert, List.map_cons, List.mem_cons, or_right_comm, or_assoc]
      tauto
  rw [Std.ExtTreeMap.mem_keys, claimsByNode, hfold]
  simp

namespace Cluster

/-- The live leases that expire by a time. -/
def expiredBy (c : Cluster) (shadow : UInt64) : List LeaseId :=
  ((OrdMap.vals c.leases).filter fun lease =>
    lease.state.isLive && lease.expiresAt ≤ shadow).map Lease.id

/-- The leases that occupy. -/
def holding (c : Cluster) : List LeaseId :=
  ((OrdMap.vals c.leases).filter fun lease =>
    leaseOccupies lease (lease.id ∈ c.openBindingLeases)).map Lease.id

/-- The claims fit beside what the leases other than these hold. -/
def Covers (c : Cluster) (except : List LeaseId) (claims : List Claim) : Prop :=
  ∀ claim ∈ claims, (c.occupancyExcept except).canCover c.graph claim = .ok true

section Enters
variable {c c' : Cluster} {command : Command} {lease : Lease} {except except' : List LeaseId}

theorem occupancyExcept_enters (h : WellFormed c) (hagreed : c.agreed)
    (hfresh : c.leases[lease.id]? = none) (hadmitted : Admitted c command lease)
    (hsame : ∀ id ∈ c.holders, id ∈ except' ↔ id ∈ except) (n : NodeId) (d : CapacityDimension)
    (hout : lease.id ∈ except' ∨ n ∉ lease.allocation.claims.map Claim.node) :
    quantityGet (({ c with leases := c.leases.insert lease.id lease }.occupancyExcept except').usedOn
      n) d = quantityGet ((c.occupancyExcept except).usedOn n) d := by
  have hwell := wellFormed_step h (.enter hagreed hfresh hadmitted)
  have hnot := fresh_not_holder h.leases hfresh
  have hrest : c.holders \ except'.toFinset = c.holders \ except.toFinset := by
    ext id
    simp only [Finset.mem_sdiff, List.mem_toFinset]
    constructor
    · rintro ⟨hid, hkept⟩
      exact ⟨hid, fun hin => hkept ((hsame id hid).mpr hin)⟩
    · rintro ⟨hid, hkept⟩
      exact ⟨hid, fun hin => hkept ((hsame id hid).mp hin)⟩
  have hkept : lease.id ∉ c.holders \ except.toFinset := fun hin => hnot (Finset.mem_sdiff.mp hin).1
  obtain ⟨hparent, hclaim, hholders⟩ := @entered_view c lease hadmitted.live
  rw [quantityGet_occupancyExcept hwell.leases, quantityGet_occupancyExcept h.leases, hparent, hclaim,
    hholders]
  congr 1
  by_cases hleft : lease.id ∈ except'
  · rw [Finset.insert_sdiff_of_mem _ (by simpa using hleft), hrest]
    exact rootTotal_update_outside hkept
  · have hzero : lease.claimOn n d = 0 := claimOn_of_not_mem d (hout.resolve_left hleft)
    rw [Finset.insert_sdiff_of_notMem _ (by simpa using hleft), hrest, rootTotal_update hkept]
    · simp [hzero]
    · intro id hid
      exact fresh_no_child h.leases hfresh id (Finset.mem_sdiff.mp hid).1
    · intro hself
      obtain ⟨parent, hp, -⟩ := hadmitted.child hself
      simp [hfresh] at hp

theorem covers_enters (h : WellFormed c) (hagreed : c.agreed)
    (hfresh : c.leases[lease.id]? = none) (hadmitted : Admitted c command lease)
    (hsame : ∀ id ∈ c.holders, id ∈ except' ↔ id ∈ except) {claims : List Claim}
    (hout : lease.id ∈ except' ∨
      ∀ claim ∈ claims, claim.node ∉ lease.allocation.claims.map Claim.node)
    (hcovers : c.Covers except claims) :
    { c with leases := c.leases.insert lease.id lease }.Covers except' claims := by
  intro claim hclaim
  obtain ⟨found, hfound, hfits⟩ := Occupancy.canCover_ok.mp (hcovers claim hclaim)
  refine Occupancy.canCover_ok.mpr ⟨found, hfound, fun d => ?_⟩
  rw [occupancyExcept_enters h hagreed hfresh hadmitted hsame claim.node d
    (hout.imp_right fun hnone => hnone claim hclaim)]
  exact hfits d

/-- Opening a lease is a retry, or adds one with the claims as resolved. -/
inductive Opened (c : Cluster) (owner : OwnerId) (allocation : Allocation) (expiresAt : UInt64) :
    Cluster → Prop where
  | retry : Opened c owner allocation expiresAt c
  | enter {command : Command} {lease : Lease} (howner : lease.owner = owner)
      (hexpires : lease.expiresAt = expiresAt) (hfresh : c.leases[lease.id]? = none)
      (hclaims : resolveClaims c.graph [] allocation.claims = .ok lease.allocation.claims)
      (hagreed : c.agreed) (hadmitted : Admitted c command lease) :
      Opened c owner allocation expiresAt { c with leases := c.leases.insert lease.id lease }

theorem opened_of_step {id : LeaseId} {owner : OwnerId} {allocation : Allocation}
    {parent : Option LeaseId} {expiresAt deadline : UInt64} {priority : UInt32}
    (hstep : Step c (.openLease id owner allocation parent expiresAt deadline priority) c') :
    Opened c owner allocation expiresAt c' := by
  cases hstep with
  | retry h => exact .retry
  | enter hagreed hfresh h =>
    cases h with
    | openLease hclaims hrevision hquarantine hdelegation =>
      exact .enter rfl rfl hfresh hclaims hagreed
        (.openLease hclaims hrevision hquarantine hdelegation)
  | install _ h => cases h
  | annotate h => cases h
  | advance _ _ h => cases h
  | finish _ h => cases h
  | rebind _ h => cases h
  | restate h => cases h

theorem mem_expiredBy (h : LeasesWellFormed c.leases) {shadow : UInt64} {id : LeaseId} :
    id ∈ c.expiredBy shadow ↔ ∃ lease, c.leases[id]? = some lease ∧ lease.state.isLive ∧
      lease.expiresAt ≤ shadow := by
  simp only [expiredBy, List.mem_map, List.mem_filter, OrdMap.mem_vals, Bool.and_eq_true,
    decide_eq_true_eq]
  constructor
  · rintro ⟨lease, ⟨⟨key, hlease⟩, hlive, hexpired⟩, rfl⟩
    rw [h.key hlease]
    exact ⟨lease, hlease, hlive, hexpired⟩
  · rintro ⟨lease, hlease, hlive, hexpired⟩
    exact ⟨lease, ⟨⟨id, hlease⟩, hlive, hexpired⟩, h.key hlease⟩

theorem Opened.covers_off (h : WellFormed c) {owner : OwnerId} {allocation : Allocation}
    {expiresAt : UInt64} (hopened : Opened c owner allocation expiresAt c')
    {claims : List Claim} (hcovers : c.Covers except claims)
    (hoff : ∀ claim ∈ claims, claim.node ∉ allocation.claims.map Claim.node) :
    c'.Covers except claims := by
  cases hopened with
  | retry => exact hcovers
  | enter howner hexpires hfresh hclaims hagreed hadmitted =>
    refine covers_enters h hagreed hfresh hadmitted (fun _ _ => Iff.rfl) (.inr ?_) hcovers
    rw [(resolveClaims_ok hclaims).1]
    exact hoff

theorem Opened.covers_at (h : WellFormed c) {owner : OwnerId} {allocation : Allocation}
    {expiresAt shadow : UInt64} (hopened : Opened c owner allocation expiresAt c')
    {claims : List Claim} (hcovers : c.Covers (c.expiredBy shadow) claims)
    (hout : expiresAt ≤ shadow ∨
      ∀ claim ∈ claims, claim.node ∉ allocation.claims.map Claim.node) :
    c'.Covers (c'.expiredBy shadow) claims := by
  cases hopened with
  | retry => exact hcovers
  | @enter _ lease howner hexpires hfresh hclaims hagreed hadmitted =>
    have hwell := (wellFormed_step h (.enter hagreed hfresh hadmitted)).leases
    refine covers_enters h hagreed hfresh hadmitted ?_ (hout.imp ?_ ?_) hcovers
    · intro other hother
      have hne : lease.id ≠ other := by
        rintro rfl
        exact fresh_not_holder h.leases hfresh hother
      rw [mem_expiredBy hwell, mem_expiredBy h.leases, OrdMap.get_insert, if_neg hne]
    · intro hended
      rw [mem_expiredBy hwell]
      refine ⟨lease, by rw [OrdMap.get_insert, if_pos rfl], hadmitted.live, ?_⟩
      rw [hexpires]
      exact hended
    · rw [(resolveClaims_ok hclaims).1]
      exact fun hoff => hoff

end Enters

/-- What admission with backfill goes by in a cluster. -/
def backfill (c : Cluster) (policy : AdmissionPolicy) (exclusions : RequestExclusions) : Backfill where
  graph := c.graph
  occupancy := c.occupancy
  quarantine := c.placementBlocked
  exclusions
  policy
  usage := ownerUsage c.graph c.leases c.openBindingLeases
  ctx := ⟨c.now, c.leases, c.openBindingLeases⟩

/-- The queue in the order in which it is tried. -/
def policyOrder (c : Cluster) (queue : List Queued) (policy : AdmissionPolicy) : List Queued :=
  orderQueueWithPolicy queue (ownerUsage c.graph c.leases c.openBindingLeases)
    (claimableCapacity c.graph) policy

theorem admitBackfillWithPolicyExplained_eq (c : Cluster) (queue : List Queued)
    (policy : AdmissionPolicy) (exclusions : RequestExclusions) :
    c.admitBackfillWithPolicyExplained queue policy exclusions =
      (((c.backfill policy exclusions).explainFrom [] (c.policyOrder queue policy)).1,
        buildAdmissionTrace (c.policyOrder queue policy)
          (ownerUsage c.graph c.leases c.openBindingLeases) (claimableCapacity c.graph) policy
          ((c.backfill policy exclusions).explainFrom [] (c.policyOrder queue policy)).2) :=
  rfl

/-- The claims a head is blocked for are still covered in the projection they were
selected in: without quarantine, at its shadow, or when all is drained. -/
inductive Spared (c next : Cluster) (b : Backfill) (head : Queued) : Option UInt64 → Prop where
  | quarantined {allocation : Allocation}
      (hplaced : select c.graph c.occupancy head.request (b.hard head) = .ok allocation)
      (hcovers : next.Covers [] allocation.claims) : Spared c next b head none
  | released {allocation : Allocation} {shadow : UInt64}
      (hheld : (select c.graph c.occupancy head.request (b.hard head)).toOption = none)
      (hplaced : select c.graph (c.occupancyExcept (c.expiredBy shadow)) head.request
        (b.effective head) = .ok allocation)
      (hcovers : next.Covers (next.expiredBy shadow) allocation.claims) :
      Spared c next b head (some shadow)
  | drained {allocation : Allocation}
      (hheld : (select c.graph c.occupancy head.request (b.hard head)).toOption = none)
      (hplaced : select c.graph (c.occupancyExcept c.holding) head.request (b.effective head) =
        .ok allocation)
      (hcovers : next.Covers c.holding allocation.claims) : Spared c next b head none

theorem shadowHead_placed {c : Cluster} {quarantine : List NodeId} {request : Request}
    {head : BlockedHead}
    (h : shadowHead c.graph quarantine ⟨c.now, c.leases, c.openBindingLeases⟩ request = some head) :
    (∃ shadow allocation, head = headAt (some shadow) allocation ∧
      select c.graph (c.occupancyExcept (c.expiredBy shadow)) request quarantine = .ok allocation) ∨
    ∃ allocation, head = headAt none allocation ∧
      select c.graph (c.occupancyExcept c.holding) request quarantine = .ok allocation := by
  unfold shadowHead at h
  dsimp only at h
  split at h
  · rename_i found hfound
    cases h
    obtain ⟨shadow, -, hattempt⟩ := List.exists_of_findSome?_eq_some hfound
    obtain ⟨allocation, hselect, rfl⟩ := Option.map_eq_some_iff.mp hattempt
    exact .inl ⟨shadow, allocation, rfl, ok_of_toOption hselect⟩
  · obtain ⟨allocation, hselect, rfl⟩ := Option.map_eq_some_iff.mp h
    exact .inr ⟨allocation, rfl, ok_of_toOption hselect⟩

theorem sparesHead_headAt {finishes : UInt64} {nodes : List NodeId} {shadow : Option UInt64}
    {allocation : Allocation} (h : sparesHead finishes nodes (headAt shadow allocation)) :
    (∃ time, shadow = some time ∧ finishes ≤ time) ∨
      ∀ claim ∈ allocation.claims, claim.node ∉ nodes := by
  simp only [sparesHead, headAt, Bool.or_eq_true, Option.any_eq_true, decide_eq_true_eq,
    List.all_eq_true, mem_keys_claimsByNode] at h
  refine h.imp_right fun hall claim hclaim hin => ?_
  exact hall claim.node hin (List.mem_map_of_mem hclaim)

/-- A head the admitted request spares keeps its claims after the lease is opened. -/
theorem spared_of_blocked {events : List Event} {c' : Cluster} {policy : AdmissionPolicy}
    {exclusions : RequestExclusions} {owner : OwnerId} {allocation : Allocation} {expiresAt : UInt64}
    (hopened : Opened (run events) owner allocation expiresAt c') {other : Queued} {head : BlockedHead}
    (hhead : ((run events).backfill policy exclusions).blockedHead other = some head)
    (hspares : sparesHead expiresAt (allocation.claims.map Claim.node) head) :
    Spared (run events) c' ((run events).backfill policy exclusions) other head.shadow := by
  have hwell := wellFormed_run events
  have hfiled := filed_run events
  have hnever : ∀ {blocking : Allocation}, sparesHead expiresAt (allocation.claims.map Claim.node)
      (headAt none blocking) →
      ∀ claim ∈ blocking.claims, claim.node ∉ allocation.claims.map Claim.node := by
    intro blocking hspares
    rcases sparesHead_headAt hspares with ⟨_, hnone, -⟩ | hoff
    · cases hnone
    · exact hoff
  unfold Backfill.blockedHead at hhead
  split at hhead
  · split at hhead
    · cases hhead
    · split at hhead
      · rename_i blocking hplaced
        cases hhead
        exact .quarantined hplaced
          (hopened.covers_off hwell (select_covered hfiled hplaced) (hnever hspares))
      · rename_i e hrefused
        have hheld : (select (run events).graph (run events).occupancy other.request
            (((run events).backfill policy exclusions).hard other)).toOption = none :=
          congrArg Except.toOption hrefused
        rcases shadowHead_placed hhead with ⟨shadow, blocking, rfl, hplaced⟩ |
          ⟨blocking, rfl, hplaced⟩
        · refine .released hheld hplaced
            (hopened.covers_at hwell (select_covered hfiled hplaced) ?_)
          rcases sparesHead_headAt hspares with ⟨_, ⟨⟩, hended⟩ | hoff
          · exact .inl hended
          · exact .inr hoff
        · exact .drained hheld hplaced
            (hopened.covers_off hwell (select_covered hfiled hplaced) (hnever hspares))
  · cases hhead

/-- Backfill admits the first request in policy order that is within budget, can be
placed and delays no head blocked before it; once its lease is opened, the claims of
every such head are still covered in the projection the head waits for. -/
theorem backfill_spares_heads (events : List Event) (queue : List Queued) (policy : AdmissionPolicy)
    (exclusions : RequestExclusions) (admission : Admission) (trace : AdmissionTrace)
    (hgranted : (run events).admitBackfillWithPolicyExplained queue policy exclusions =
      (some admission, trace)) (id : LeaseId) (parent : Option LeaseId) (deadline : UInt64)
    (priority : UInt32) (effects : List Effect) (next : Cluster)
    (hopen : apply (.openLease id admission.owner admission.allocation parent
      (saturatingAdd (run events).now admission.request.lifetime) deadline priority) (run events) =
        .ok effects next) :
    ∃ before queued after, (run events).policyOrder queue policy = before ++ queued :: after ∧
      ((run events).backfill policy exclusions).Starts
        (before.filterMap ((run events).backfill policy exclusions).blockedHead) queued admission ∧
      (∀ earlier other later, before = earlier ++ other :: later → ∀ admission,
        ¬((run events).backfill policy exclusions).Starts
          (earlier.filterMap ((run events).backfill policy exclusions).blockedHead) other
            admission) ∧
      ∀ entry ∈ trace.candidates, entry.rank < before.length → ∀ shadow,
        entry.outcome = .blocked shadow → ∃ head, before[entry.rank]? = some head ∧
          Spared (run events) next ((run events).backfill policy exclusions) head shadow := by
  rw [admitBackfillWithPolicyExplained_eq] at hgranted
  obtain ⟨hadmission, htrace⟩ := Prod.mk.inj hgranted
  obtain ⟨before, queued, after, horder, hexplained⟩ :=
    Backfill.explainFrom_explained (Prod.ext hadmission rfl)
  have hstarts := hexplained.starts
  have hfirst := hexplained.first
  simp only [List.nil_append] at hstarts hfirst
  refine ⟨before, queued, after, horder, hstarts, hfirst, ?_⟩
  intro entry hentry hrank shadow hblocked
  rw [← htrace] at hentry
  obtain ⟨-, -, -, houtcome⟩ := buildAdmissionTrace_entry hentry
  have hother := List.getElem?_eq_getElem hrank
  rw [hblocked] at houtcome
  obtain ⟨head, hhead, rfl⟩ := hexplained.heads entry.rank _ _ hother houtcome
  refine ⟨_, hother, ?_⟩
  obtain ⟨c', hstep, rfl⟩ := apply_ok_iff.mp ⟨effects, hopen⟩
  have hspares := List.all_eq_true.mp hstarts.spares head
    (List.mem_filterMap.mpr ⟨_, List.getElem_mem hrank, hhead⟩)
  rw [← hstarts.admits.request] at hspares
  have hspared := spared_of_blocked (opened_of_step hstep) hhead hspares
  generalize head.shadow = shadow at hspared ⊢
  cases hspared with
  | quarantined hplaced hcovers => exact .quarantined hplaced hcovers
  | released hheld hplaced hcovers => exact .released hheld hplaced hcovers
  | drained hheld hplaced hcovers => exact .drained hheld hplaced hcovers

/-- Both units of the gpu are taken until 100. -/
def Sample.taken : List Event := Sample.mixedHost ++ [
  .apply (.openLease 1 1 ⟨[⟨2, qty .count 2⟩], 1, ⟨"", []⟩⟩ none 100 50 0)]

def Sample.asks (id : RequestId) (priority : UInt32) (need : Need) : Queued :=
  ⟨{ Sample.mixedRequest with id, priority, needs := [need], topology := [] }, 1, 0⟩

/-- Work that waits for the gpu, and work that only needs memory. -/
def Sample.queue : List Queued := [
  Sample.asks 1 1 ⟨.gpu, qty .count 1, []⟩,
  Sample.asks 2 0 ⟨.memory, qty .bytes 1, []⟩]

theorem taken_queue_order : (run Sample.taken).policyOrder Sample.queue .default = Sample.queue := by
  simp only [policyOrder, orderQueueWithPolicy, AdmissionPolicy.default, orderQueue, Bool.not_false,
    if_true]
  exact List.mergeSort_of_pairwise (by decide +kernel)

/-- The memory work overtakes, and the gpu work keeps its place at 100. -/
theorem memory_work_spares_gpu_work : ∃ admission trace effects next,
    (run Sample.taken).admitBackfillWithPolicyExplained Sample.queue .default ∅ =
      (some admission, trace) ∧ admission.request.id = 2 ∧
      apply (.openLease 2 1 admission.allocation none 10 50 0) (run Sample.taken) =
        .ok effects next ∧
      Spared (run Sample.taken) next ((run Sample.taken).backfill .default ∅)
        (Sample.asks 1 1 ⟨.gpu, qty .count 1, []⟩) (some 100) := by
  have hadmitted : (((run Sample.taken).backfill .default ∅).explainFrom [] Sample.queue).1.any
      fun admission => admission.request.id = 2 && admission.owner = 1 &&
        admission.request.lifetime = 10 &&
        (run Sample.taken).accepts (.openLease 2 1 admission.allocation none 10 50 0) := by
    decide +kernel
  have houtcomes : (((run Sample.taken).backfill .default ∅).explainFrom [] Sample.queue).2 =
      [.blocked (some 100), .selected true] := by
    decide +kernel
  simp only [Option.any_eq_true, Bool.and_eq_true, decide_eq_true_eq] at hadmitted
  obtain ⟨admission, hadmission, ⟨⟨hrequest, howner⟩, hlifetime⟩, haccepts⟩ := hadmitted
  obtain ⟨effects, next, happly⟩ : ∃ effects next, apply (.openLease 2 1 admission.allocation none
      10 50 0) (run Sample.taken) = .ok effects next := by
    obtain ⟨c', hstep⟩ := accepts_iff.mp haccepts
    obtain ⟨effects, happly⟩ := apply_ok_iff.mpr ⟨c', hstep, rfl⟩
    exact ⟨effects, _, happly⟩
  have hends : saturatingAdd (run Sample.taken).now admission.request.lifetime = 10 := by
    rw [hlifetime]
    decide +kernel
  have hgranted := admitBackfillWithPolicyExplained_eq (run Sample.taken) Sample.queue .default ∅
  rw [taken_queue_order, hadmission, houtcomes] at hgranted
  refine ⟨admission, _, effects, next, hgranted, hrequest, happly, ?_⟩
  rw [← hends, ← howner] at happly
  obtain ⟨before, queued, after, horder, hstarts, -, hheads⟩ := backfill_spares_heads Sample.taken
    Sample.queue .default ∅ admission _ hgranted 2 none 50 0 effects next happly
  rw [taken_queue_order] at horder
  -- what was admitted is the second entry, so the first is before it
  have hfirst : before[0]? = some (Sample.asks 1 1 ⟨.gpu, qty .count 1, []⟩) := by
    cases before with
    | nil =>
      obtain ⟨rfl, -⟩ := List.cons.inj horder
      rw [hstarts.admits.request] at hrequest
      exact absurd hrequest (by decide +kernel)
    | cons head _ =>
      obtain ⟨rfl, -⟩ := List.cons.inj horder
      rfl
  obtain ⟨head, hhead, hspared⟩ := hheads _ List.mem_cons_self
    (List.getElem?_eq_some_iff.mp hfirst).1 (some 100) rfl
  cases hfirst.symm.trans hhead
  exact hspared

end Cluster
end Archon.Kernel
