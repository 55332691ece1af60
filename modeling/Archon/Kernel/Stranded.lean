import Archon.Kernel.Retries

/-! Activation after an update of the graph. A lease activates only at the graph
revision it was granted at, and every accepted update advances the revision, so
an update strands every lease that is being prepared, whatever it touches. -/
namespace Archon.Kernel
open Fallible

theorem saturatingAdd_one_eq_iff (revision : UInt64) :
    saturatingAdd revision 1 = revision ↔ revision = UInt64.ofNat (2 ^ 64 - 1) := by
  unfold saturatingAdd
  constructor
  · intro h
    split at h
    · rename_i hroom
      have hnat := congrArg UInt64.toNat h
      rw [UInt64.toNat_add] at hnat
      have hone : (1 : UInt64).toNat = 1 := rfl
      omega
    · exact h.symm
  · rintro rfl
    rfl

namespace Graph

/-- The node with everything above it and its claim contracts is left as it is. -/
structure Untouched (before after : Graph) (id : NodeId) : Prop where
  ancestors : after.ancestors id = before.ancestors id
  nodes : ∀ other, other = id ∨ other ∈ before.ancestors id → after.node other = before.node other
  contracts : after.claimBindings[id]? = before.claimBindings[id]?

theorem apply_revision {graph staged : Graph} {nodes : List Node} {edges : List Edge}
    (h : graph.apply nodes edges = .ok staged) :
    staged.revision = saturatingAdd graph.revision 1 := by
  simp only [apply, applyFactValues, check_bind_ok, check_pure_ok] at h
  obtain ⟨_, -, _, ⟨_, -, _, -, _, -, _, -, rfl⟩, rfl⟩ := h
  rfl

end Graph

namespace Cluster

theorem Staged.revision {graph staged : Graph} {command : Command}
    (h : Staged graph command staged) : staged.revision = saturatingAdd graph.revision 1 := by
  cases h with
  | legacy h => exact Graph.apply_revision h
  | resource h =>
    simp only [Graph.applyResourceFacts, check_bind_ok, check_pure_ok] at h
    obtain ⟨_, -, _, -, _, -, _, -, _, -, rfl⟩ := h
    rfl
  | provider h =>
    simp only [Graph.applyProviderFacts, check_bind_ok, check_pure_ok] at h
    obtain ⟨_, -, _, -, _, -, _, -, _, -, rfl⟩ := h
    rfl

section Step
variable {c c' : Cluster} {command : Command} {staged : Graph} {id : LeaseId} {lease : Lease}
  {log : List Command}

theorem install_of_updatesGraph (hstep : Step c command c') (hupdate : updatesGraph command) :
    ∃ staged, Staged c.graph command staged ∧ c' = { c with graph := staged } := by
  cases hstep with
  | install _ hstaged => exact ⟨_, hstaged, rfl⟩
  | retry h => cases h <;> cases hupdate
  | annotate h => cases h <;> cases hupdate
  | enter _ _ h => cases h <;> cases hupdate
  | advance _ _ h => cases h <;> cases hupdate
  | finish _ h => cases h <;> cases hupdate
  | rebind _ h => cases h <;> cases hupdate
  | restate h => cases h <;> cases hupdate
  | release | bind | lose | hello | raise => cases hupdate

theorem advanced_of_activates (haccepts : c.accepts (.activateLease id))
    (hlease : c.leases[id]? = some lease) (hstate : lease.state = .preparing) :
    c.agreed ∧ Advanced c id lease (.activateLease id) fun lease => { lease with state := .active } := by
  obtain ⟨c', hstep⟩ := accepts_iff.mp haccepts
  cases hstep with
  | retry h =>
    cases h with
    | activate _ hfound hactive =>
      obtain rfl : lease = _ := Option.some.inj (hlease.symm.trans hfound)
      rw [hstate] at hactive
      cases hactive
  | advance hagreed hfound h =>
    cases h with
    | activate hpreparing hrevision hquarantine hexpiry hdeadline hstanding hprepared =>
      obtain rfl : lease = _ := Option.some.inj (hlease.symm.trans hfound)
      exact ⟨hagreed, .activate hpreparing hrevision hquarantine hexpiry hdeadline hstanding hprepared⟩
  | install _ h => cases h
  | annotate h => cases h
  | enter _ _ h => cases h
  | finish _ h => cases h
  | rebind _ h => cases h
  | restate h => cases h

theorem advanced_after_update (huntouched : ∀ claim ∈ lease.allocation.claims,
      Graph.Untouched c.graph staged claim.node)
    (h : Advanced c id lease (.activateLease id) fun lease => { lease with state := .active })
    (hrevision : lease.allocation.graphRevision = staged.revision) :
    Advanced { c with graph := staged, log } id lease (.activateLease id)
      fun lease => { lease with state := .active } := by
  have hquarantined : ∀ claim ∈ lease.allocation.claims,
      nodeQuarantined { c with graph := staged, log } claim.node = c.nodeQuarantined claim.node := by
    intro claim hclaim
    simp only [nodeQuarantined, (huntouched claim hclaim).ancestors]
  have hcovered : ∀ claim ∈ lease.allocation.claims,
      (c.occupancyExcept [id]).canCover staged claim = (c.occupancyExcept [id]).canCover c.graph claim := by
    intro claim hclaim
    simp only [Occupancy.canCover, Occupancy.remaining, (huntouched claim hclaim).nodes _ (.inl rfl)]
  cases h with
  | activate hpreparing _ hquarantine hexpiry hdeadline hstanding hprepared =>
    refine .activate hpreparing hrevision ?_ hexpiry hdeadline ?_ hprepared
    · simp only [refuseQuarantined, List.forM_eq_forM, forM_ok] at hquarantine ⊢
      intro claim hclaim
      rw [hquarantined claim hclaim]
      exact hquarantine claim hclaim
    · cases hparent : lease.parent with
      | some parent =>
        rw [hparent] at hstanding
        exact hstanding
      | none =>
        rw [hparent] at hstanding
        simp only [requireStanding, requireCover, List.forM_eq_forM, forM_ok] at hstanding ⊢
        intro claim hclaim
        have hcover := hstanding claim hclaim
        rw [← hcovered claim hclaim] at hcover
        exact hcover

/-- An update that leaves the claimed nodes untouched leaves the lease
activatable exactly when it leaves the revision as it is. -/
theorem accepts_after_update_iff (haccepts : c.accepts (.activateLease id))
    (hlease : c.leases[id]? = some lease) (hstate : lease.state = .preparing)
    (huntouched : ∀ claim ∈ lease.allocation.claims, Graph.Untouched c.graph staged claim.node) :
    accepts { c with graph := staged, log } (.activateLease id) ↔ staged.revision = c.graph.revision := by
  obtain ⟨hagreed, hadvanced⟩ := advanced_of_activates haccepts hlease hstate
  have hgranted : lease.allocation.graphRevision = c.graph.revision := by
    cases hadvanced with
    | activate _ hrevision => exact hrevision
  constructor
  · intro hafter
    obtain ⟨-, hagain⟩ := advanced_of_activates hafter hlease hstate
    cases hagain with
    | activate _ hrevision => exact hrevision.symm.trans hgranted
  · intro hrevision
    have hagain := @advanced_after_update c staged id lease log huntouched hadvanced (hgranted.trans hrevision.symm)
    exact accepts_iff.mpr ⟨_, .advance hagreed hlease hagain⟩

end Step

/-! Runs. -/

/-- In a reachable cluster, a lease that could be activated before an accepted
update which leaves its claimed nodes, all above them and their contracts
untouched can be activated after it exactly when the revision was exhausted. -/
theorem activation_survives_iff (events : List Event) (update : Command) (effects : List Effect)
    (next : Cluster) (id : LeaseId) (lease : Lease) (hupdate : updatesGraph update)
    (happly : apply update (run events) = .ok effects next)
    (hlease : (run events).leases[id]? = some lease) (hstate : lease.state = .preparing)
    (haccepts : (run events).accepts (.activateLease id))
    (huntouched : ∀ claim ∈ lease.allocation.claims,
      Graph.Untouched (run events).graph next.graph claim.node) :
    next.accepts (.activateLease id) ↔ (run events).graph.revision = UInt64.ofNat (2 ^ 64 - 1) := by
  obtain ⟨c', hstep, rfl⟩ := apply_ok_iff.mp ⟨effects, happly⟩
  obtain ⟨staged, hstaged, rfl⟩ := install_of_updatesGraph hstep hupdate
  rw [← saturatingAdd_one_eq_iff, ← hstaged.revision]
  exact accepts_after_update_iff haccepts hlease hstate huntouched

/-- A lease on the gpu waits for activation while a second machine joins. -/
def Sample.prepared : List Event := Sample.host .exclusive ++ [
  Sample.openLease 1 2 none,
  .apply (.openBinding 1 1 2 .enforce .exclusive),
  .apply (.recordBindingPrepared 1 1 7 1)]

def Sample.secondMachine : Command := .applyResourceFacts [⟨3, .machine, ∅, ∅⟩] [] []

theorem second_machine_joins : ∃ effects next lease,
    apply Sample.secondMachine (run Sample.prepared) = .ok effects next ∧
      (run Sample.prepared).leases[(1 : LeaseId)]? = some lease ∧ lease.state = .preparing ∧
      (run Sample.prepared).accepts (.activateLease 1) ∧
      ∀ claim ∈ lease.allocation.claims,
        Graph.Untouched (run Sample.prepared).graph next.graph claim.node := by
  have haccepts : (run Sample.prepared).accepts Sample.secondMachine := by decide +kernel
  obtain ⟨c', hstep⟩ := accepts_iff.mp haccepts
  obtain ⟨effects, happly⟩ := apply_ok_iff.mpr ⟨c', hstep, rfl⟩
  have hgraph : c'.graph = (run (Sample.prepared ++ [.apply Sample.secondMachine])).graph := by
    rw [run_of_step hstep]
  have hpreparing : (run Sample.prepared).leases[(1 : LeaseId)]?.map (fun lease =>
      (lease.state, lease.allocation.claims)) = some (.preparing, [⟨2, Sample.units 2⟩]) := by
    decide +kernel
  obtain ⟨lease, hlease, hfields⟩ := Option.map_eq_some_iff.mp hpreparing
  obtain ⟨hstate, hclaims⟩ := Prod.mk.inj hfields
  refine ⟨effects, _, lease, happly, hlease, hstate, by decide +kernel, ?_⟩
  rw [hclaims]
  simp only [List.mem_singleton, forall_eq, hgraph]
  have habove : (run Sample.prepared).graph.ancestors 2 = [1] := by decide +kernel
  refine ⟨by decide +kernel, ?_, by decide +kernel⟩
  rw [habove]
  intro other hother
  simp only [List.mem_singleton] at hother
  rcases hother with rfl | rfl <;> decide +kernel

/-- The waiting lease can no longer be activated. -/
theorem second_machine_refuses_activation : ∃ effects next,
    apply Sample.secondMachine (run Sample.prepared) = .ok effects next ∧
      ¬next.accepts (.activateLease 1) := by
  obtain ⟨effects, next, lease, happly, hlease, hstate, haccepts, huntouched⟩ := second_machine_joins
  refine ⟨effects, next, happly, ?_⟩
  rw [activation_survives_iff Sample.prepared Sample.secondMachine effects next 1 lease rfl happly
    hlease hstate haccepts huntouched]
  decide +kernel

theorem unrelated_update_strands_lease :
    ¬∀ (events : List Event) (update : Command) (effects : List Effect) (next : Cluster)
      (id : LeaseId) (lease : Lease), updatesGraph update →
      apply update (run events) = .ok effects next →
      (run events).leases[id]? = some lease → lease.state = .preparing →
      (run events).accepts (.activateLease id) →
      (∀ claim ∈ lease.allocation.claims,
        Graph.Untouched (run events).graph next.graph claim.node) →
      next.accepts (.activateLease id) := by
  intro h
  obtain ⟨effects, next, lease, happly, hlease, hstate, haccepts, huntouched⟩ := second_machine_joins
  obtain ⟨c', hstep, rfl⟩ := apply_ok_iff.mp ⟨effects, happly⟩
  obtain ⟨staged, hstaged, rfl⟩ := install_of_updatesGraph hstep rfl
  have hafter := h _ _ _ _ _ _ rfl happly hlease hstate haccepts huntouched
  have hsame := (accepts_after_update_iff haccepts hlease hstate huntouched).mp hafter
  rw [hstaged.revision, saturatingAdd_one_eq_iff] at hsame
  revert hsame
  decide +kernel

end Cluster
end Archon.Kernel
