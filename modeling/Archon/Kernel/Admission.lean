import Archon.Kernel.Candidates
import Archon.Kernel.Capacity

/-! The scheduler and the authority agree. What placement grants on a cluster
passes the checks of a new root lease on that cluster, is stored unchanged, and
adds exactly itself to the occupancy. -/
namespace Archon.Kernel.Cluster
open Fallible Holdings Select

theorem resolveClaims_self {graph : Graph} {seen : List NodeId} {claims : List Claim}
    (hdistinct : DistinctNodes claims) (hfresh : ∀ claim ∈ claims, claim.node ∉ seen)
    (hresolved : ∀ claim ∈ claims, resolveClaim graph claim = .ok claim) :
    resolveClaims graph seen claims = .ok claims := by
  induction claims generalizing seen with
  | nil => rfl
  | cons claim rest ih =>
    rw [DistinctNodes, List.map_cons, List.nodup_cons] at hdistinct
    have hrest : resolveClaims graph (claim.node :: seen) rest = .ok rest := by
      refine ih hdistinct.2 (fun other hother => ?_) fun other hother =>
        hresolved other (List.mem_cons_of_mem _ hother)
      rw [List.mem_cons, not_or]
      refine ⟨fun heq => hdistinct.1 (heq ▸ List.mem_map_of_mem hother), ?_⟩
      exact hfresh other (List.mem_cons_of_mem _ hother)
    simp only [resolveClaims, check_bind_ok, refuseIf_ok, check_pure_ok]
    exact ⟨(), hfresh claim List.mem_cons_self, claim, hresolved claim List.mem_cons_self, rest, hrest,
      rfl⟩

/-- What a grant on the cluster comes with. -/
structure Grant (c : Cluster) (claim : Claim) (required : ClaimBinding) : Prop where
  contract : c.graph.claimBindingForQuantity claim.node claim.quantity = .ok required
  clear : c.nodeQuarantined claim.node = false
  covered : c.occupancy.canCover c.graph claim = .ok true

theorem grant_of_allocate {events : List Event} {request : Request} {allocation : Allocation}
    (h : (run events).allocate request = .ok allocation) :
    ∀ claim ∈ allocation.claims, ∃ required, (run events).Grant claim required := by
  intro claim hclaim
  have hfiled := filed_run events
  obtain ⟨need, found, hfound, hmem, hquantity⟩ := (select_sound h).granted claim hclaim
  obtain ⟨-, hoffers⟩ := (mem_candidates hfound claim.node).mp hmem
  obtain ⟨node, required, hnode, hcontract, hblocked, -, hcover⟩ := offers_ok.mp hoffers
  rw [hfiled.key _ _ hnode] at hblocked
  refine ⟨required, ?_, ?_, ?_⟩
  · rw [hquantity]
    exact hcontract
  · rw [← isBlocked_eq hfiled (statesKnown_run events)]
    exact hblocked
  · rw [← hquantity] at hcover
    exact hcover

section Checks
variable {c : Cluster} {claims : List Claim}

theorem Grant.resolved {claim : Claim} {required : ClaimBinding} (h : c.Grant claim required) :
    resolveClaim c.graph claim = .ok claim := by
  obtain ⟨node, hnode, -⟩ := Occupancy.canCover_ok.mp h.covered
  obtain ⟨d, hd⟩ := Graph.claimBindingForQuantity_positive h.contract
  have hempty := isEmpty_false_of_quantityGet hd
  simp only [resolveClaim, check_bind_ok, okOr_ok, check_pure_ok, hempty, Bool.false_eq_true, if_false]
  exact ⟨node, hnode, required, h.contract, trivial⟩

theorem granted_checks (h : WellFormed c) {id : LeaseId} (hfresh : c.leases[id]? = none)
    (hdistinct : DistinctNodes claims) (hgrant : ∀ claim ∈ claims, ∃ required, c.Grant claim required) :
    resolveClaims c.graph [] claims = .ok claims ∧ c.refuseQuarantined claims = .ok () ∧
      c.requireCover id claims = .ok () := by
  refine ⟨resolveClaims_self hdistinct (by simp) fun claim hclaim => ?_, ?_, ?_⟩
  · obtain ⟨required, hrequired⟩ := hgrant claim hclaim
    exact hrequired.resolved
  · simp only [refuseQuarantined, List.forM_eq_forM, forM_ok, refuseIf_ok, Bool.not_eq_true]
    intro claim hclaim
    obtain ⟨required, hrequired⟩ := hgrant claim hclaim
    exact hrequired.clear
  · simp only [requireCover, List.forM_eq_forM, forM_ok, check_bind_ok, refuseIf_ok, not_not,
      occupancyExcept_fresh h.leases hfresh]
    intro claim hclaim
    obtain ⟨required, hrequired⟩ := hgrant claim hclaim
    exact ⟨true, hrequired.covered, rfl⟩

end Checks

/-- A root lease that enters adds its claims to the occupancy, and nothing else. -/
theorem occupancy_enters {events : List Event} {command : Command} {lease : Lease}
    (hagreed : (run events).agreed) (hfresh : (run events).leases[lease.id]? = none)
    (hroot : lease.parent = none) (hadmitted : Admitted (run events) command lease) (n : NodeId)
    (d : CapacityDimension) :
    (quantityGet ((run (events ++ [.apply command])).occupancy.usedOn n) d).toNat =
      (quantityGet ((run events).occupancy.usedOn n) d).toNat + lease.claimOn n d := by
  have hleases := (wellFormed_run events).leases
  have hbefore := occupancyExcept_exact events (leavesOut_nil _) n d
  have hafter := occupancyExcept_exact (events ++ [.apply command]) (leavesOut_nil _) n d
  have hview := @entered_view (run events) lease hadmitted.live
  rw [run_of_step (.enter hagreed hfresh hadmitted)] at hafter ⊢
  have htotal : ∀ log, rootTotal
      { run events with leases := (run events).leases.insert lease.id lease, log }.parentOf
      ({ run events with leases := (run events).leases.insert lease.id lease, log }.claimOf (n, d))
      { run events with leases := (run events).leases.insert lease.id lease, log }.holders =
      lease.claimOn n d + rootTotal (run events).parentOf ((run events).claimOf (n, d))
        (run events).holders := by
    intro log
    change rootTotal
      { run events with leases := (run events).leases.insert lease.id lease }.parentOf
      ({ run events with leases := (run events).leases.insert lease.id lease }.claimOf (n, d))
      { run events with leases := (run events).leases.insert lease.id lease }.holders = _
    rw [hview.1, hview.2.1, hview.2.2, rootTotal_update (fresh_not_holder hleases hfresh)
      (fresh_no_child hleases hfresh) (by simp [hroot]), hroot]
    simp
  rw [List.toFinset_nil, Finset.sdiff_empty] at hbefore hafter
  rw [htotal] at hafter
  unfold occupancy
  rw [hafter, hbefore, Nat.add_comm]

/-- Whatever placement grants enters as a root lease, opened or reserved: the
claims are stored as granted and add exactly themselves to the occupancy. -/
theorem allocation_enters (events : List Event) (hagreed : (run events).agreed = true)
    {request : Request} {allocation : Allocation}
    (hallocate : (run events).allocate request = .ok allocation) {id : LeaseId}
    (hfresh : (run events).leases[id]? = none) (owner : OwnerId) (expiresAt deadline : UInt64)
    (priority : UInt32) :
    ∀ command ∈ [Command.openLease id owner allocation none expiresAt deadline priority,
        .reserveLease id owner allocation expiresAt priority],
      (run events).accepts command ∧
      (run (events ++ [.apply command])).leases[id]?.map (fun lease => lease.allocation.claims) =
        some allocation.claims ∧
      ∀ n d, (quantityGet ((run (events ++ [.apply command])).occupancy.usedOn n) d).toNat =
        (quantityGet ((run events).occupancy.usedOn n) d).toNat + claimOn allocation.claims n d := by
  have hsound := select_sound hallocate
  obtain ⟨hclaims, hquarantine, hcover⟩ := granted_checks (wellFormed_run events) hfresh
    hsound.distinct (grant_of_allocate hallocate)
  -- both commands admit one lease, with the granted claims and no parent
  have henters : ∀ command lease, Admitted (run events) command lease → lease.id = id →
      lease.parent = none → lease.allocation.claims = allocation.claims →
      (run events).accepts command ∧
      (run (events ++ [.apply command])).leases[id]?.map (fun lease => lease.allocation.claims) =
        some allocation.claims ∧
      ∀ n d, (quantityGet ((run (events ++ [.apply command])).occupancy.usedOn n) d).toNat =
        (quantityGet ((run events).occupancy.usedOn n) d).toNat + claimOn allocation.claims n d := by
    rintro command lease hadmitted rfl hroot hsame
    have hstep := Step.enter hagreed hfresh hadmitted
    refine ⟨accepts_iff.mpr ⟨_, hstep⟩, ?_, fun n d => ?_⟩
    · rw [run_of_step hstep]
      simp [hsame]
    · rw [occupancy_enters hagreed hfresh hroot hadmitted, Lease.claimOn, hsame]
  intro command hcommand
  simp only [List.mem_cons, List.not_mem_nil, or_false] at hcommand
  rcases hcommand with rfl | rfl
  · exact henters _ _ (.openLease hclaims hsound.revision hquarantine hcover) rfl rfl rfl
  · exact henters _ _ (.reserve hclaims hsound.revision hquarantine hcover) rfl rfl rfl

/-- One unit of a gpu. -/
def Sample.request : Request where
  id := 1
  requestClass := .batch
  needs := [⟨.gpu, Sample.units 1, []⟩]
  topology := []
  preferences := []
  data := []
  lifetime := 10
  priority := 0
  machineLocal := false

/-- The host grants a unit of its gpu, and the reservation of it is accepted. -/
theorem host_grant_enters : ∃ allocation,
    (run (Sample.host .exclusive)).allocate Sample.request = .ok allocation ∧
      allocation.claims = [⟨2, Sample.units 1⟩] ∧
      (run (Sample.host .exclusive)).accepts (.reserveLease 1 1 allocation 100 0) := by
  have hclaims : ((run (Sample.host .exclusive)).allocate Sample.request).toOption.map
      (fun allocation => allocation.claims) = some [⟨2, Sample.units 1⟩] := by
    decide +kernel
  obtain ⟨allocation, hallocate, hclaims⟩ := Option.map_eq_some_iff.mp hclaims
  have hok : (run (Sample.host .exclusive)).allocate Sample.request = .ok allocation := by
    cases hresult : (run (Sample.host .exclusive)).allocate Sample.request with
    | error e => simp [hresult, Except.toOption] at hallocate
    | ok granted => simpa [hresult, Except.toOption] using hallocate
  have hfresh : (run (Sample.host .exclusive)).leases[(1 : LeaseId)]? = none := by decide +kernel
  refine ⟨allocation, hok, hclaims, ?_⟩
  exact (allocation_enters (Sample.host .exclusive) (by decide +kernel) hok hfresh 1 100 0 0 _
    (by simp)).1

end Archon.Kernel.Cluster
