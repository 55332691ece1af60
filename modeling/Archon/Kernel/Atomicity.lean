import Archon.Kernel.Tables

/-! Refused commands change nothing. Most operations check before they write;
the ones that write first rely on well-formed tables, where the lookups they
make afterwards cannot fail. -/
namespace Archon.Kernel.Cluster
open Fallible

section Operations
variable (c : Cluster) {id : LeaseId} {bindingId : BindingId}

theorem reserveLease_atomic : Atomic c (reserveLease id owner allocation expiresAt priority) := by
  simp only [reserveLease, atomic_get_bind, atomic_attempt_bind]
  intro _ _
  cases c.leases[id]? <;> simp

theorem openLease_atomic :
    Atomic c (openLease id owner allocation parent expiresAt deadline priority) := by
  simp only [openLease, atomic_get_bind, atomic_attempt_bind]
  intro _ _
  cases c.leases[id]? <;> simp

theorem issueFence_succeeds {next : UInt64 → ClusterM α}
    (h : ∀ fence c, Succeeds c (next fence)) :
    Succeeds c (issueFence bindingId node provider scope >>= next) := by
  obtain ⟨a, t, hnext⟩ := h (c.issuedFence bindingId node provider scope)
    { c with lastFence := c.issuedFences node provider scope }
  exact ⟨a, t, bind_ok.mpr ⟨_, _, issueFence_ok.mpr ⟨rfl, rfl⟩, hnext⟩⟩

theorem openBinding_atomic : Atomic c (openBinding bindingId lease node provider scope) := by
  simp only [openBinding, atomic_get_bind]
  cases c.bindings[bindingId]? with
  | some existing => simp
  | none =>
    simp only [atomic_attempt_bind]
    intros
    exact (issueFence_succeeds c (by simp)).atomic

theorem failBinding_atomic : Atomic c (failBinding bindingId reason) := by
  cases hbinding : c.bindings[bindingId]? with
  | none => simp [failBinding, hbinding]
  | some binding =>
    have hstep : ∃ effects c', dispatch (.failBinding bindingId reason) c = .ok effects c' := by
      by_cases hclosed : binding.state.isClosed
      · obtain ⟨effects, hok⟩ := accepted_of_retry (.failBinding hbinding hclosed)
        exact ⟨effects, c, hok⟩
      · obtain ⟨effects, hok⟩ := accepted_of_step
          (.rebind hbinding (.fail (by simpa using hclosed)))
        exact ⟨effects, _, hok⟩
    exact Succeeds.atomic hstep

theorem setNodeState_atomic : Atomic c (setNodeState node state) := by
  simp [setNodeState]

end Operations

section WritesFirst
variable {c : Cluster} {id : LeaseId}

theorem descendantsPostorder_of_unknown (h : LeasesWellFormed c.leases)
    (hnone : c.leases[id]? = none) : c.descendantsPostorder id = [] := by
  apply List.eq_nil_iff_forall_not_mem.mpr
  intro descendant hmem
  rw [mem_descendantsPostorder h] at hmem
  obtain ⟨child, hchild, -⟩ := Relation.TransGen.head'_iff.mp hmem
  obtain ⟨lease, hlease, hparent⟩ := (mem_sortedChildren h).mp hchild
  obtain ⟨found, hfound⟩ := h.known hlease id hparent
  rw [hnone] at hfound
  cases hfound

theorem failLease_atomic (h : LeasesWellFormed c.leases) : Atomic c (failLease id reason) := by
  cases hlease : c.leases[id]? with
  | none => simp [failLease, descendantsPostorder_of_unknown h hlease, cascade, hlease]
  | some lease =>
    obtain ⟨effects, hok⟩ := accepted_of_finish hlease (@Ended.fail c id lease reason)
    exact Succeeds.atomic ⟨effects, _, hok⟩

theorem revokeLease_atomic (h : LeasesWellFormed c.leases) : Atomic c (revokeLease id) := by
  cases hlease : c.leases[id]? with
  | none => simp [revokeLease, descendantsPostorder_of_unknown h hlease, revokeCascade, hlease]
  | some lease =>
    obtain ⟨effects, hok⟩ := accepted_of_finish hlease .revoke
    exact Succeeds.atomic ⟨effects, _, hok⟩

theorem expireLease_atomic : Atomic c (expireLease id) := by
  by_cases haccepted : ∃ lease, c.leases[id]? = some lease ∧ lease.state.isLive ∧
      (c.replaying = false → lease.expiresAt ≤ c.now)
  · obtain ⟨lease, hlease, hlive, hdue⟩ := haccepted
    obtain ⟨effects, hok⟩ := accepted_of_finish hlease (.expire hlive hdue)
    exact Succeeds.atomic ⟨effects, _, hok⟩
  · simp only [expireLease, atomic_get_bind, atomic_attempt_bind, okOr_ok, atomic_ite, refuseIf_ok,
      not_not]
    intro lease hlease
    refine ⟨fun _ => atomic_pure _ _, fun _ _ hlive _ hdue => ?_⟩
    exact absurd ⟨lease, hlease, hlive, by simpa using hdue⟩ haccepted

theorem completeLease_atomic : Atomic c (completeLease id code) := by
  by_cases haccepted : ∃ lease, c.leases[id]? = some lease ∧ lease.state.isLive
  · obtain ⟨lease, hlease, hlive⟩ := haccepted
    obtain ⟨effects, hok⟩ := accepted_of_finish hlease (@Ended.complete c id lease code hlive)
    exact Succeeds.atomic ⟨effects, _, hok⟩
  · simp only [completeLease, atomic_get_bind, atomic_attempt_bind, okOr_ok, atomic_ite, refuseIf_ok,
      not_not]
    intro lease hlease
    refine ⟨fun _ => atomic_pure _ _, fun _ _ hlive => ?_⟩
    exact absurd ⟨lease, hlease, hlive⟩ haccepted

theorem recordFailed_atomic (h : WellFormed c) {bindingId : BindingId} :
    Atomic c (recordFailed bindingId session reason fence) := by
  by_cases haccepted : ∃ binding, c.acknowledged bindingId session fence = .ok binding
  · obtain ⟨binding, hack⟩ := haccepted
    obtain ⟨lease, hlease, -⟩ := h.bindings.held (acknowledged_ok.mp hack).1
    obtain ⟨effects, hok⟩ := accepted_of_step (@Step.lose c session fence reason _ _ _ hack hlease)
    exact Succeeds.atomic ⟨effects, _, hok⟩
  · simp only [recordFailed, atomic_get_bind, atomic_attempt_bind]
    intro binding hack
    exact absurd ⟨binding, hack⟩ haccepted

end WritesFirst

theorem dispatch_atomic {c : Cluster} (h : WellFormed c) (command : Command) :
    Atomic c (dispatch command) := by
  cases command with
  | applyGraph => simp [dispatch, applyGraph, installResourceGraph]
  | applyResourceFacts => simp [dispatch, applyResourceFacts, installResourceGraph]
  | applyProviderFacts => simp [dispatch, applyProviderFacts, installResourceGraph]
  | adoptFactWriters => simp [dispatch, adoptFactWriters]
  | reserveLease => exact reserveLease_atomic c
  | promoteLease => simp [dispatch, promoteLease]
  | openLease => exact openLease_atomic c
  | activateLease => simp [dispatch, activateLease]
  | failLease id reason => exact @failLease_atomic c id reason h.leases
  | releaseLease => simp [dispatch, releaseLease]
  | completeLease => exact completeLease_atomic
  | revokeLease => exact revokeLease_atomic h.leases
  | expireLease => exact expireLease_atomic
  | renewLease => simp [dispatch, renewLease]
  | openBinding => exact openBinding_atomic c
  | activateBinding => simp [dispatch, activateBinding]
  | fenceBinding => simp [dispatch, fenceBinding]
  | failBinding id reason => exact @failBinding_atomic c id reason
  | releaseBinding => simp [dispatch, releaseBinding]
  | recordBindingPrepared => simp [dispatch, recordPrepared]
  | recordBindingActive => simp [dispatch, recordActive]
  | recordBindingReleased => simp [dispatch, recordReleased, recordClosed]
  | recordBindingFenced => simp [dispatch, recordFenced, recordClosed]
  | recordBindingFailed id session reason fence =>
    exact @recordFailed_atomic c session reason fence h id
  | setAgentSession => simp [dispatch, setAgentSession]
  | setNodeHealth => simp [dispatch, setNodeHealth]
  | setNodeState => exact setNodeState_atomic c
  | rebindSession => simp [dispatch, rebindSession]
  | advanceEndpointFence => simp [dispatch, advanceEndpointFence]
  | quarantineNode => exact setNodeState_atomic c
  | unquarantineNode =>
    simp only [dispatch, unquarantineNode, atomic_get_bind, atomic_attempt_bind, atomic_ite]
    exact fun _ _ => ⟨fun _ => atomic_pure _ _, fun _ => setNodeState_atomic c⟩

/-- The log entry of an accepted command is the only write outside dispatch. -/
theorem apply_atomic {c : Cluster} (h : WellFormed c) (command : Command) :
    Atomic c (apply command) := by
  intro e left hleft
  apply dispatch_atomic h command e left
  change EStateM.bind (dispatch command) _ c = _ at hleft
  unfold EStateM.bind at hleft
  cases hdispatch : dispatch command c with
  | ok effects next =>
    rw [hdispatch] at hleft
    cases hleft
  | error e' t =>
    rw [hdispatch] at hleft
    exact hleft

end Archon.Kernel.Cluster
