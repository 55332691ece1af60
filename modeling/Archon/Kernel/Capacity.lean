import Archon.Kernel.Totals

/-! Capacity. The leases of a reachable cluster form a ledger over every node
and dimension: the occupying ones hold their claims, children within the claim
of their parent, roots within the capacity of the graph. The unchecked sums of
the source are exact because the ledger bounds them. -/
namespace Archon.Kernel.Cluster
open Fallible Holdings

/-- The ledger that the tables and the graph of a cluster spell out. -/
structure Represents (ledger : Ledger LeaseId Resource) (c : Cluster) : Prop where
  parent : ledger.parent = c.parentOf
  weight : ledger.weight = c.claimOf
  held : ledger.held = c.holders
  capacity : ledger.capacity = c.capacityOf

section Refinement
variable {c c' : Cluster} {command : Command} {ledger : Ledger LeaseId Resource}

theorem holders_delegated (h : WellFormed c) (hweak : WeaklyDelegated c) :
    ∀ id ∈ c.holders, ∀ p, c.parentOf id = some p → p ∉ c.holders → c.parentOf p = none := by
  intro id hid p hp hout
  obtain ⟨lease, hlease, -⟩ := (occupies_iff h.leases).mp ((mem_holders h.leases).mp hid)
  rw [parentOf_of_get hlease] at hp
  have hlive := (occupies_child_iff h hlease hp).mp ((mem_holders h.leases).mp hid)
  obtain ⟨parent, hparent, hactive | hroot⟩ := hweak id lease hlease hlive p hp
  · refine absurd ((mem_holders h.leases).mpr ?_) hout
    exact (occupies_iff h.leases).mpr ⟨parent, hparent, .inl (by simp [hactive, LeaseState.isLive])⟩
  · rw [parentOf_of_get hparent]
    exact hroot

theorem kept_view (h : WellFormed c) (hstep : Step c command c')
    (hnone : ∀ id : LeaseId, c.leases[id]? = none → c'.leases[id]? = none) :
    c'.parentOf = c.parentOf ∧ c'.claimOf = c.claimOf ∧ c'.holders ⊆ c.holders := by
  have hevolve := leases_evolve h.leases hstep
  refine ⟨?_, ?_, ?_⟩
  · funext id
    cases hlease : c.leases[id]? with
    | none => simp [parentOf, hlease, hnone id hlease]
    | some lease =>
      obtain ⟨next, hnext, hmoves⟩ := hevolve.kept id lease hlease
      rw [parentOf_of_get hlease, parentOf_of_get hnext, hmoves.parent]
  · funext resource id
    cases hlease : c.leases[id]? with
    | none => simp [claimOf, hlease, hnone id hlease]
    | some lease =>
      obtain ⟨next, hnext, hmoves⟩ := hevolve.kept id lease hlease
      rw [claimOf_of_get hlease, claimOf_of_get hnext, Lease.claimOn, Lease.claimOn, hmoves.claims]
  · intro id hid
    have hwell := wellFormed_step h hstep
    rw [mem_holders hwell.leases] at hid
    obtain ⟨next, hnext, -⟩ := (occupies_iff hwell.leases).mp hid
    cases hlease : c.leases[id]? with
    | none => simp [hnone id hlease] at hnext
    | some lease => exact (mem_holders h.leases).mpr (occupies_step h hstep hlease hid)

theorem ledger_shrinks (h : WellFormed c) (hweak : WeaklyDelegated c) (hrep : Represents ledger c)
    (hstep : Step c command c')
    (hnone : ∀ id : LeaseId, c.leases[id]? = none → c'.leases[id]? = none)
    (hcapacity : c'.capacityOf = c.capacityOf) :
    ∃ next : Ledger LeaseId Resource, Represents next c' := by
  obtain ⟨hparent, hclaim, hheld⟩ := kept_view h hstep hnone
  have hdelegated := holders_delegated (wellFormed_step h hstep) (weaklyDelegated_step h hweak hstep)
  refine ⟨ledger.shrink c'.holders (hrep.held ▸ hheld) ?_, ?_, ?_, rfl, ?_⟩
  · rwa [hrep.parent, ← hparent]
  · exact hrep.parent.trans hparent.symm
  · exact hrep.weight.trans hclaim.symm
  · exact hrep.capacity.trans hcapacity.symm

theorem entered_view {lease : Lease} (hlive : lease.state.isLive) :
    { c with leases := c.leases.insert lease.id lease }.parentOf =
        Function.update c.parentOf lease.id lease.parent ∧
      { c with leases := c.leases.insert lease.id lease }.claimOf =
        (fun r => Function.update (c.claimOf r) lease.id (lease.claimOn r.1 r.2)) ∧
      { c with leases := c.leases.insert lease.id lease }.holders = insert lease.id c.holders := by
  refine ⟨?_, ?_, ?_⟩
  · funext id
    by_cases hid : id = lease.id
    · simp [parentOf, hid]
    · simp [parentOf, OrdMap.get_insert, hid, Ne.symm hid]
  · funext r id
    by_cases hid : id = lease.id
    · simp [claimOf, hid]
    · simp [claimOf, OrdMap.get_insert, hid, Ne.symm hid]
  · ext id
    simp only [holders, OrdMap.keySet_insert, Finset.mem_filter, Finset.mem_insert]
    by_cases hid : id = lease.id
    · simp [hid, occupies, leaseOccupies, hlive]
    · have hsame : { c with leases := c.leases.insert lease.id lease }.occupies id =
          c.occupies id := by
        simp only [occupies, OrdMap.get_insert, Ne.symm hid, if_false]
        rfl
      simp [hid, hsame]

theorem fresh_not_holder (h : LeasesWellFormed c.leases) {id : LeaseId}
    (hfresh : c.leases[id]? = none) : id ∉ c.holders := by
  rw [mem_holders h]
  intro hoccupies
  obtain ⟨found, hfound, -⟩ := (occupies_iff h).mp hoccupies
  simp [hfresh] at hfound

theorem fresh_no_child (h : LeasesWellFormed c.leases) {id : LeaseId}
    (hfresh : c.leases[id]? = none) : ∀ child ∈ c.holders, c.parentOf child ≠ some id := by
  intro child hchild hparent
  obtain ⟨found, hfound, -⟩ := (occupies_iff h).mp ((mem_holders h).mp hchild)
  rw [parentOf_of_get hfound] at hparent
  obtain ⟨parent, hp⟩ := h.known hfound _ hparent
  simp [hfresh] at hp

theorem ledger_enters (h : WellFormed c) (hrep : Represents ledger c) {lease : Lease}
    (hfresh : c.leases[lease.id]? = none) (hadmitted : Admitted c command lease) :
    ∃ next : Ledger LeaseId Resource,
      Represents next { c with leases := c.leases.insert lease.id lease } := by
  obtain ⟨hparentRep, hweightRep, hheldRep, hcapacityRep⟩ := hrep
  have hwithin : ∀ r, rootTotal c.parentOf (c.claimOf r) c.holders ≤ c.capacityOf r := by
    intro r
    rw [← hparentRep, ← hweightRep, ← hheldRep, ← hcapacityRep]
    exact ledger.within r
  have hcontained : ∀ r p, childTotal c.parentOf (c.claimOf r) c.holders p ≤ c.claimOf r p := by
    intro r p
    rw [← hparentRep, ← hweightRep, ← hheldRep]
    exact ledger.contained r p
  have hout := fresh_not_holder h.leases hfresh
  have hunused := fresh_no_child h.leases hfresh
  have hself : lease.parent ≠ some lease.id := by
    intro hparent
    obtain ⟨parent, hp, -⟩ := hadmitted.child hparent
    simp [hfresh] at hp
  have hup : ∀ p ∈ lease.parent, p ∈ c.holders := by
    intro p hp
    obtain ⟨parent, hfound, hactive, -⟩ := hadmitted.child hp
    exact (mem_holders h.leases).mpr ((occupies_iff h.leases).mpr
      ⟨parent, hfound, .inl (by simp [hactive, LeaseState.isLive])⟩)
  have hchild : ∀ p ∈ lease.parent, ∀ r : Resource,
      childTotal c.parentOf (c.claimOf r) c.holders p + lease.claimOn r.1 r.2 ≤ c.claimOf r p := by
    intro p hp r
    obtain ⟨parent, hfound, -, hok⟩ := hadmitted.child hp
    exact requireWithinParent_ok h.leases hfresh hfound (fun r => hcontained r p)
      hadmitted.resolved.1 hok r
  have hroot : lease.parent = none → ∀ r : Resource,
      rootTotal c.parentOf (c.claimOf r) c.holders + lease.claimOn r.1 r.2 ≤ c.capacityOf r :=
    fun hnone => requireCover_ok h.leases hwithin hfresh hadmitted.resolved.1 (hadmitted.root hnone)
  rw [← hparentRep, ← hheldRep] at hunused
  rw [← hheldRep] at hout hup
  simp only [← hparentRep, ← hweightRep, ← hheldRep, ← hcapacityRep] at hchild hroot
  obtain ⟨hparent, hclaim, hholders⟩ := @entered_view c _ hadmitted.live
  refine ⟨ledger.enter lease.id lease.parent (fun r => lease.claimOn r.1 r.2) hout hunused hself hup
    hchild hroot, ?_, ?_, ?_, hcapacityRep⟩
  · rw [hparent, ← hparentRep]
    rfl
  · rw [hclaim, ← hweightRep]
    rfl
  · rw [hholders, ← hheldRep]
    rfl

/-- Every step of the cluster is a step of its ledger. -/
theorem ledger_step (h : WellFormed c) (hweak : WeaklyDelegated c) (hrep : Represents ledger c)
    (hstep : Step c command c') : ∃ next : Ledger LeaseId Resource, Represents next c' := by
  have hstep' := hstep
  cases hstep with
  | install _ _ hshrunk _ =>
    refine ⟨ledger.resize (capacityOf { c with graph := _ }) fun r => ?_, hrep.parent, hrep.weight,
      hrep.held, rfl⟩
    rw [hrep.parent, hrep.weight, hrep.held]
    refine refuseShrunk_ok h.leases (fun r => ?_) hshrunk r
    rw [← hrep.parent, ← hrep.weight, ← hrep.held, ← hrep.capacity]
    exact ledger.within r
  | annotate hannotated =>
    refine ⟨ledger, hrep.parent, hrep.weight, hrep.held, hrep.capacity.trans ?_⟩
    funext r
    simp only [capacityOf, Graph.node, hannotated.nodes.1]
  | enter _ hfresh hadmitted => exact ledger_enters h hrep hfresh hadmitted
  | advance | release | lose =>
    exact ledger_shrinks h hweak hrep hstep' (fun id hnone => by simp [OrdMap.get_modify, hnone]) rfl
  | finish =>
    exact ledger_shrinks h hweak hrep hstep'
      (fun id hnone => by simp [get_endTree h.leases, hnone]) rfl
  | retry | bind | rebind | hello | restate | raise =>
    exact ledger_shrinks h hweak hrep hstep' (fun _ hnone => hnone) rfl

end Refinement

theorem ledger_new : ∃ ledger : Ledger LeaseId Resource, Represents ledger new := by
  have hnone : new.holders = ∅ := by
    apply Finset.eq_empty_of_forall_notMem
    intro id hid
    obtain ⟨lease, hlease⟩ := OrdMap.mem_keySet.mp (Finset.mem_filter.mp hid).1
    simp [new] at hlease
  refine ⟨⟨new.parentOf, new.claimOf, new.holders, new.capacityOf, ?_, ?_, ?_⟩, rfl, rfl, rfl, rfl⟩
  · simp [hnone, childTotal]
  · simp [hnone]
  · simp [hnone, rootTotal, roots]

/-- Every reachable cluster spells out a ledger. -/
theorem ledger_run (events : List Event) :
    ∃ ledger : Ledger LeaseId Resource, Represents ledger (run events) := by
  refine @run_invariant (fun c => ∃ ledger : Ledger LeaseId Resource, Represents ledger c)
    ledger_new ?_ ?_ events
  · rintro c epoch now agreed log ⟨ledger, hrep⟩
    exact ⟨ledger, hrep.parent, hrep.weight, hrep.held, hrep.capacity⟩
  · rintro before command c' hstep ⟨ledger, hrep⟩
    exact ledger_step (wellFormed_run before) (weaklyDelegated_run before) hrep hstep

section Exact
variable {c : Cluster}

/-- Leases that can be left out of the occupancy without counting one claim
twice: those without a parent, and those left out with all their children. -/
def LeavesOut (c : Cluster) (except : List LeaseId) : Prop :=
  ∀ id ∈ except, ∀ lease, c.leases[id]? = some lease →
    lease.parent = none ∨ lease.state = .reserved ∨
      ∀ child childLease, c.leases[child]? = some childLease → childLease.parent = some id →
        child ∈ except

theorem LeavesOut.delegated (h : WellFormed c) (hweak : WeaklyDelegated c) {except : List LeaseId}
    (hexcept : c.LeavesOut except) : ∀ id ∈ c.holders \ except.toFinset, ∀ p,
      c.parentOf id = some p → p ∉ c.holders \ except.toFinset → c.parentOf p = none := by
  intro id hid p hp hout
  obtain ⟨hheld, hkept⟩ := Finset.mem_sdiff.mp hid
  by_cases hholds : p ∈ c.holders
  · -- the parent holds, so it is one of the leases left out
    have hin : p ∈ except := by
      by_contra hnot
      exact hout (Finset.mem_sdiff.mpr ⟨hholds, by simpa using hnot⟩)
    obtain ⟨lease, hlease, -⟩ := (occupies_iff h.leases).mp ((mem_holders h.leases).mp hheld)
    obtain ⟨parent, hparent, -⟩ := (occupies_iff h.leases).mp ((mem_holders h.leases).mp hholds)
    rw [parentOf_of_get hlease] at hp
    rw [parentOf_of_get hparent]
    rcases hexcept p hin parent hparent with hroot | hreserved | hchildren
    · exact hroot
    · exact h.leases.reserved hparent hreserved
    · exact absurd (hchildren id lease hlease hp) (by simpa using hkept)
  · exact holders_delegated h hweak id hheld p hp hholds

end Exact

theorem rootTotal_le_capacity (events : List Event) (r : Resource) :
    rootTotal (run events).parentOf ((run events).claimOf r) (run events).holders ≤
      (run events).capacityOf r := by
  obtain ⟨ledger, hrep⟩ := ledger_run events
  have hwithin := ledger.within r
  rwa [hrep.parent, hrep.weight, hrep.held, hrep.capacity] at hwithin

theorem occupancyExcept_exact (events : List Event) {except : List LeaseId}
    (hexcept : (run events).LeavesOut except) (n : NodeId) (d : CapacityDimension) :
    (quantityGet (((run events).occupancyExcept except).usedOn n) d).toNat =
      rootTotal (run events).parentOf ((run events).claimOf (n, d))
        ((run events).holders \ except.toFinset) := by
  have hwell := wellFormed_run events
  obtain ⟨ledger, hrep⟩ := ledger_run events
  have hcontained := ledger.contained (n, d)
  rw [hrep.parent, hrep.weight, hrep.held] at hcontained
  have hbound := (rootTotal_shrink Finset.sdiff_subset hcontained
    (hexcept.delegated hwell (weaklyDelegated_run events))).trans (rootTotal_le_capacity events (n, d))
  rw [quantityGet_occupancyExcept hwell.leases]
  exact UInt64.toNat_ofNat_of_lt' (hbound.trans_lt (capacityOf_lt _ _))

theorem leavesOut_nil (c : Cluster) : c.LeavesOut [] := by
  simp [LeavesOut]

/-- No over-commitment: the roots stay within the capacity of every node, and
the unchecked sums are exact. -/
theorem roots_within_capacity (events : List Event) (n : NodeId) (d : CapacityDimension) :
    (run events).rootClaims [] n d ≤ (run events).capacityOf (n, d) ∧
    (quantityGet ((run events).occupancy.usedOn n) d).toNat = (run events).rootClaims [] n d ∧
    ∀ except, (run events).LeavesOut except →
      (quantityGet (((run events).occupancyExcept except).usedOn n) d).toNat =
        (run events).rootClaims except n d := by
  have hwell := wellFormed_run events
  have hexact : ∀ except, (run events).LeavesOut except →
      (quantityGet (((run events).occupancyExcept except).usedOn n) d).toNat =
        (run events).rootClaims except n d := by
    intro except hexcept
    rw [rootClaims_eq hwell.leases]
    exact occupancyExcept_exact events hexcept n d
  refine ⟨?_, hexact [] (leavesOut_nil _), hexact⟩
  rw [rootClaims_eq hwell.leases]
  simpa using rootTotal_le_capacity events (n, d)

/-- The gpu is full, and leaving the parent out counts its child instead. -/
theorem family_within_capacity :
    (run Sample.family).rootClaims [] 2 .count = 2 ∧
      2 ≤ (run Sample.family).capacityOf (2, .count) ∧
      (quantityGet (((run Sample.family).occupancyExcept [1]).usedOn 2) .count).toNat =
        (run Sample.family).rootClaims [1] 2 .count := by
  have htotal : (run Sample.family).rootClaims [] 2 .count = 2 := by decide +kernel
  have hparent : (run Sample.family).leases[(1 : LeaseId)]?.map Lease.parent = some none := by
    decide +kernel
  obtain ⟨hwithin, -, hexact⟩ := roots_within_capacity Sample.family 2 .count
  refine ⟨htotal, htotal ▸ hwithin, hexact [1] fun id hid lease hlease => .inl ?_⟩
  rw [List.mem_singleton] at hid
  subst hid
  simpa [hlease] using hparent

-- once the provider has failed the parent and fenced its binding, the child is a root
example : (run (Sample.family ++ [.apply (.recordBindingFailed 1 1 "device lost" 1),
    .apply (.recordBindingFenced 1 1 1)])).rootClaims [] 2 .count = 1 := by
  decide +kernel

/-! Children within their parent. -/

/-- A child claims only nodes that its parent claims. -/
def NodesContained (leases : OrdMap LeaseId Lease) : Prop :=
  ∀ (id p : LeaseId) (lease parent : Lease), leases[id]? = some lease → lease.parent = some p →
    leases[p]? = some parent →
    ∀ claim ∈ lease.allocation.claims, claim.node ∈ parent.allocation.claims.map Claim.node

theorem nodesContained_step {c c' : Cluster} {command : Command} (h : LeasesWellFormed c.leases)
    (hcontained : NodesContained c.leases) (hstep : Step c command c') :
    NodesContained c'.leases := by
  intro id p after parentAfter hafter hp hparentAfter claim hclaim
  have hevolve := leases_evolve h hstep
  have hbefore : ∃ parent, c.leases[p]? = some parent ∧
      claim.node ∈ parent.allocation.claims.map Claim.node := by
    rcases hevolve.origin hafter with ⟨lease, hlease, hmoves⟩ | ⟨-, -, hadmitted⟩
    · rw [hmoves.parent] at hp
      rw [hmoves.claims] at hclaim
      obtain ⟨parent, hparent⟩ := h.known hlease p hp
      exact ⟨parent, hparent, hcontained id p lease parent hlease hp hparent claim hclaim⟩
    · obtain ⟨parent, hparent, -, hok⟩ := hadmitted.child hp
      exact ⟨parent, hparent, requireWithinParent_nodes hok claim hclaim⟩
  obtain ⟨parent, hparent, hnode⟩ := hbefore
  rw [((leases_evolve h hstep).moved hparent hparentAfter).claims]
  exact hnode

theorem nodesContained_run (events : List Event) : NodesContained (run events).leases := by
  refine @run_invariant (fun c => NodesContained c.leases) ?_ (fun _ _ _ _ _ h => h)
    (fun before _ _ hstep h => nodesContained_step (wellFormed_run before).leases h hstep) events
  intro id p lease parent hlease
  simp [new] at hlease

/-- Children stay within their parent, node by node and amount by amount, and
the unchecked sums over siblings are exact. -/
theorem children_within_parent (events : List Event) (p : LeaseId) (parent : Lease)
    (hp : (run events).leases[p]? = some parent) :
    (∀ (id : LeaseId) (lease : Lease), (run events).leases[id]? = some lease →
      lease.parent = some p → ∀ claim ∈ lease.allocation.claims,
        claim.node ∈ parent.allocation.claims.map Claim.node) ∧
    (∀ (n : NodeId) (d : CapacityDimension),
      (run events).childClaims p [] n d ≤ parent.claimOn n d) ∧
    ∀ (except : LeaseId) (n : NodeId) (d : CapacityDimension),
      (quantityGet ((subtreeUsed (OrdMap.vals (run events).leases) (run events).openBindingLeases p
        except).usedOn n) d).toNat = (run events).childClaims p [except] n d := by
  have hwell := wellFormed_run events
  obtain ⟨ledger, hrep⟩ := ledger_run events
  have hcontained := ledger.contained
  rw [hrep.parent, hrep.weight, hrep.held] at hcontained
  refine ⟨fun id lease hlease hunder =>
    nodesContained_run events id p lease parent hlease hunder hp, fun n d => ?_, fun except n d => ?_⟩
  · rw [childClaims_eq hwell.leases, ← claimOf_of_get hp (n, d)]
    simpa using hcontained (n, d) p
  · rw [quantityGet_subtreeUsed hwell.leases, childClaims_eq hwell.leases]
    simp only [List.toFinset_cons, List.toFinset_nil, insert_empty_eq]
    apply UInt64.toNat_ofNat_of_lt'
    exact ((childTotal_mono Finset.sdiff_subset p).trans (hcontained (n, d) p)).trans_lt
      (claimOf_lt hwell.leases _ p)

theorem family_child_within :
    (run Sample.family).childClaims 1 [] 2 .count = 1 ∧
      (run Sample.family).childClaims 1 [] 2 .count ≤ 2 := by
  have hparent : (run Sample.family).leases[(1 : LeaseId)]?.map
      (fun lease => lease.claimOn 2 .count) = some 2 := by
    decide +kernel
  obtain ⟨parent, hp, hclaim⟩ := Option.map_eq_some_iff.mp hparent
  refine ⟨by decide +kernel, ?_⟩
  have hwithin := (children_within_parent Sample.family 1 parent hp).2.1 2 .count
  rwa [hclaim] at hwithin

end Archon.Kernel.Cluster
