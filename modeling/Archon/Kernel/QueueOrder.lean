import Archon.Kernel.Backfill
import Archon.Lib.Ranking

/-! The order of the queue. Requests are ranked by priority, by the share of their owner
where shares count, by submit time and by id. No two requests share an id, so the ranking
is total and where a request is stored in the queue decides nothing. -/
namespace Archon.Kernel
open Admit Ranking

/-! The rank of a request. -/

/-- Priority descending, then share, submit time and id ascending. -/
abbrev QueueRank := ℕᵒᵈ ×ₗ ℕ ×ₗ ℕ ×ₗ ℕ

/-- The share a request is ranked by: none where fair share is off. -/
def rankedShare (usage : OrdMap OwnerId ClassUsage) (capacity : ClassUsage)
    (policy : AdmissionPolicy) (owner : OwnerId) : ℕ :=
  if policy.fairShare then
    weightedDominantShare (usage[owner]?.getD ∅) capacity (policy.ownerWeights[owner]?.getD 1)
  else 0

def queueRank (usage : OrdMap OwnerId ClassUsage) (capacity : ClassUsage) (policy : AdmissionPolicy)
    (queued : Queued) : QueueRank :=
  toLex (OrderDual.toDual queued.request.priority.toNat,
    toLex (rankedShare usage capacity policy queued.owner,
      toLex (queued.submittedAt.toNat, queued.request.id.asU64.toNat)))

/-- The request is within budget and can be placed. -/
def Eligible (graph : Graph) (occupancy : Occupancy) (quarantine : List NodeId)
    (policy : AdmissionPolicy) (usage : OrdMap OwnerId ClassUsage) (queued : Queued) : Prop :=
  withinBudget (usage[queued.owner]?.getD ∅) queued.request policy.ownerCeiling ∧
    ∃ allocation, select graph occupancy queued.request quarantine = .ok allocation

section Order
variable {usage : OrdMap OwnerId ClassUsage} {capacity : ClassUsage} {policy : AdmissionPolicy}
  {queue : List Queued}

theorem comparison_isLE (shareOf : OwnerId → ℕ) (left right : Queued) :
    ((compare right.request.priority left.request.priority).then
      ((compare (shareOf left.owner) (shareOf right.owner)).then
        ((compare left.submittedAt right.submittedAt).then
          (compare left.request.id right.request.id)))).isLE ↔
      (toLex (OrderDual.toDual left.request.priority.toNat, toLex (shareOf left.owner,
          toLex (left.submittedAt.toNat, left.request.id.asU64.toNat))) : QueueRank) ≤
        toLex (OrderDual.toDual right.request.priority.toNat, toLex (shareOf right.owner,
          toLex (right.submittedAt.toNat, right.request.id.asU64.toNat))) := by
  have hid : (compare left.request.id right.request.id).isLE ↔
      left.request.id.asU64.toNat ≤ right.request.id.asU64.toNat := by
    rw [← UInt64.le_iff_toNat_le]
    exact @Std.isLE_compare UInt64 _ _ _ _ _
  have hpriority : compare right.request.priority left.request.priority = .eq ↔
      left.request.priority = right.request.priority := by
    rw [Std.compare_eq_iff_eq]
    exact eq_comm
  simp only [Ordering.isLE_then_iff_or, Prod.Lex.toLex_le_toLex, hpriority, Std.compare_eq_lt,
    Std.compare_eq_iff_eq, hid, OrderDual.toDual_lt_toDual, EmbeddingLike.apply_eq_iff_eq,
    UInt32.lt_iff_toNat_lt, UInt64.lt_iff_toNat_lt, UInt32.toNat_inj, UInt64.toNat_inj]

theorem orderQueueWithPolicy_eq (queue : List Queued) :
    orderQueueWithPolicy queue usage capacity policy = byRank (queueRank usage capacity policy) queue := by
  unfold orderQueueWithPolicy byRank
  by_cases hshare : policy.fairShare
  · simp only [hshare, Bool.not_true, Bool.false_eq_true, if_false]
    congr 1
    funext left right
    have hshared := comparison_isLE (rankedShare usage capacity policy) left right
    rw [Bool.eq_iff_iff, decide_eq_true_eq]
    simpa only [queueRank, rankedShare, hshare, if_true] using hshared
  · simp only [hshare, Bool.not_false, if_true]
    unfold orderQueue
    congr 1
    funext left right
    have hshareless := comparison_isLE (fun _ => 0) left right
    rw [Bool.eq_iff_iff, decide_eq_true_eq]
    simpa [queueRank, rankedShare, hshare] using hshareless

theorem queueRank_injective (hdistinct : (queue.map fun queued => queued.request.id).Nodup) :
    ∀ left ∈ queue, ∀ right ∈ queue,
      queueRank usage capacity policy left = queueRank usage capacity policy right → left = right := by
  intro left hleft right hright hrank
  have hids : left.request.id = right.request.id := by
    simp only [queueRank, EmbeddingLike.apply_eq_iff_eq, Prod.mk.injEq] at hrank
    obtain ⟨-, -, -, hid⟩ := hrank
    cases hl : left.request.id
    cases hr : right.request.id
    rw [hl, hr] at hid
    exact congrArg Id.mk (UInt64.toNat_inj.mp hid)
  exact List.inj_on_of_nodup_map hdistinct hleft hright hids

theorem orderQueueWithPolicy_perm {stored : List Queued} (hperm : queue.Perm stored)
    (hdistinct : (queue.map fun queued => queued.request.id).Nodup) :
    orderQueueWithPolicy queue usage capacity policy =
      orderQueueWithPolicy stored usage capacity policy := by
  rw [orderQueueWithPolicy_eq, orderQueueWithPolicy_eq]
  exact byRank_perm_eq hperm (queueRank_injective hdistinct)

end Order

section First
variable {graph : Graph} {occupancy : Occupancy} {quarantine : List NodeId} {policy : AdmissionPolicy}
  {usage : OrdMap OwnerId ClassUsage} {order : List Queued} {admission : Admission}

theorem explainFrom_none :
    (explainFrom graph occupancy quarantine policy usage order).1 = none ↔
      ∀ queued ∈ order, ¬Eligible graph occupancy quarantine policy usage queued := by
  induction order with
  | nil => simp [explainFrom]
  | cons head rest ih =>
    rw [List.forall_mem_cons, ← ih, explainFrom]
    cases hbudget : withinBudget (usage[head.owner]?.getD ∅) head.request policy.ownerCeiling with
    | false => simp [Eligible, hbudget]
    | true =>
      cases hselect : select graph occupancy head.request quarantine <;>
        simp [Eligible, hbudget, hselect]

/-- What is admitted is the first that is eligible. -/
theorem explainFrom_first
    (h : (explainFrom graph occupancy quarantine policy usage order).1 = some admission) :
    ∃ before queued after, order = before ++ queued :: after ∧
      (∀ other ∈ before, ¬Eligible graph occupancy quarantine policy usage other) ∧
      Admits graph occupancy quarantine policy usage queued admission := by
  induction order with
  | nil => simp [explainFrom] at h
  | cons head rest ih =>
    have hlater : ¬Eligible graph occupancy quarantine policy usage head →
        (explainFrom graph occupancy quarantine policy usage rest).1 = some admission →
        ∃ before queued after, head :: rest = before ++ queued :: after ∧
          (∀ other ∈ before, ¬Eligible graph occupancy quarantine policy usage other) ∧
          Admits graph occupancy quarantine policy usage queued admission := by
      intro hhead hrest
      obtain ⟨before, queued, after, rfl, hbefore, hadmits⟩ := ih hrest
      exact ⟨head :: before, queued, after, rfl, List.forall_mem_cons.mpr ⟨hhead, hbefore⟩, hadmits⟩
    rw [explainFrom] at h
    cases hbudget : withinBudget (usage[head.owner]?.getD ∅) head.request policy.ownerCeiling with
    | false =>
      rw [hbudget] at h
      exact hlater (fun heligible => Bool.false_ne_true (hbudget.symm.trans heligible.1)) h
    | true =>
      cases hselect : select graph occupancy head.request quarantine with
      | error e =>
        rw [hbudget, hselect] at h
        refine hlater (fun heligible => ?_) h
        obtain ⟨-, allocation, hplaced⟩ := heligible
        cases hselect.symm.trans hplaced
      | ok allocation =>
        rw [hbudget, hselect] at h
        cases h
        exact ⟨[], head, rest, rfl, by simp, rfl, rfl, hbudget, hselect⟩

end First

/-- Where the queued requests lie decides nothing: admission and its trace are those of any
other storage order, and what is admitted ranks first among all that is eligible. -/
theorem admission_ignores_storage (graph : Graph) (occupancy : Occupancy) (quarantine : List NodeId)
    (exclusions : RequestExclusions) (policy : AdmissionPolicy) (ctx : BackfillCtx)
    {queue stored : List Queued} (hperm : queue.Perm stored)
    (hdistinct : (queue.map fun queued => queued.request.id).Nodup) :
    admitWithPolicyExplained graph occupancy quarantine policy queue ctx.leases ctx.openBindings =
        admitWithPolicyExplained graph occupancy quarantine policy stored ctx.leases ctx.openBindings ∧
      admitBackfillWithPolicyExplained graph occupancy quarantine exclusions policy queue ctx =
        admitBackfillWithPolicyExplained graph occupancy quarantine exclusions policy stored ctx ∧
      (let usage := ownerUsage graph ctx.leases ctx.openBindings
       let admitted := (admitWithPolicyExplained graph occupancy quarantine policy queue ctx.leases
         ctx.openBindings).1
       (∀ admission, admitted = some admission → ∃ queued ∈ queue,
          Admits graph occupancy quarantine policy usage queued admission ∧
          ∀ other ∈ queue, Eligible graph occupancy quarantine policy usage other →
            queueRank usage (claimableCapacity graph) policy queued ≤
              queueRank usage (claimableCapacity graph) policy other) ∧
        (admitted = none ↔
          ∀ queued ∈ queue, ¬Eligible graph occupancy quarantine policy usage queued)) := by
  refine ⟨?_, ?_, ?_, ?_⟩
  · unfold admitWithPolicyExplained
    dsimp only
    rw [orderQueueWithPolicy_perm hperm hdistinct]
  · unfold admitBackfillWithPolicyExplained
    dsimp only
    rw [orderQueueWithPolicy_perm hperm hdistinct]
  · intro admission hadmitted
    obtain ⟨before, queued, after, horder, hbefore, hadmits⟩ := explainFrom_first hadmitted
    have hsorted := @pairwise_byRank _ _ _ (queueRank (ownerUsage graph ctx.leases ctx.openBindings)
      (claimableCapacity graph) policy) queue
    rw [← orderQueueWithPolicy_eq, horder] at hsorted
    have hmem : ∀ other, other ∈ before ++ queued :: after ↔ other ∈ queue := by
      intro other
      rw [← horder, mem_orderQueueWithPolicy]
    refine ⟨queued, (hmem queued).mp (by simp), hadmits, fun other hother heligible => ?_⟩
    exact first_le hsorted hbefore ((hmem other).mpr hother) heligible
  · rw [admitWithPolicyExplained, explainFrom_none]
    simp only [mem_orderQueueWithPolicy]

/-- The sample queue read backwards is admitted from alike. -/
theorem reversed_queue_admits_alike :
    admitWithPolicyExplained Sample.mixedGraph ⟨∅⟩ [] .default Cluster.Sample.queue ∅ [] =
      admitWithPolicyExplained Sample.mixedGraph ⟨∅⟩ [] .default Cluster.Sample.queue.reverse ∅ [] :=
  (admission_ignores_storage Sample.mixedGraph ⟨∅⟩ [] ∅ .default ⟨0, ∅, []⟩
    (List.reverse_perm Cluster.Sample.queue).symm (by decide)).1

end Archon.Kernel
