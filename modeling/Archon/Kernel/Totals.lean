import Archon.Lib.Ledger
import Archon.Kernel.Teardown

/-! Totals. What the leases of a cluster claim of one dimension of one node, as
sums over the lease table, against what the occupancy of the source computes in
words: equal modulo the word size, and exact once a check has passed. -/
namespace Archon.Kernel.Cluster
open Fallible Holdings

/-- One dimension of one node. -/
abbrev Resource := NodeId × CapacityDimension

def parentOf (c : Cluster) (id : LeaseId) : Option LeaseId := c.leases[id]?.bind Lease.parent

/-- What a lease claims of a resource. -/
def claimOf (c : Cluster) (resource : Resource) (id : LeaseId) : ℕ :=
  (c.leases[id]?.map fun lease => lease.claimOn resource.1 resource.2).getD 0

/-- The leases that occupy. -/
def holders (c : Cluster) : Finset LeaseId :=
  (OrdMap.keySet c.leases).filter fun id => c.occupies id

/-- What the graph has of a resource; nothing when the node is unknown. -/
def capacityOf (c : Cluster) (resource : Resource) : ℕ :=
  ((c.graph.node resource.1).map fun node => (quantityGet node.capacity resource.2).toNat).getD 0

section Tables
variable {c : Cluster}

theorem mem_holders (h : LeasesWellFormed c.leases) {id : LeaseId} :
    id ∈ c.holders ↔ c.occupies id := by
  simp only [holders, Finset.mem_filter, OrdMap.mem_keySet, and_iff_right_iff_imp]
  intro hoccupies
  obtain ⟨lease, hlease, -⟩ := (occupies_iff h).mp hoccupies
  exact ⟨lease, hlease⟩

theorem parentOf_of_get {id : LeaseId} {lease : Lease} (hlease : c.leases[id]? = some lease) :
    c.parentOf id = lease.parent := by
  simp [parentOf, hlease]

theorem claimOf_of_get {id : LeaseId} {lease : Lease} (hlease : c.leases[id]? = some lease)
    (resource : Resource) : c.claimOf resource id = lease.claimOn resource.1 resource.2 := by
  simp [claimOf, hlease]

/-- The occupying leases that the occupancy of the source considers. -/
def occupying (c : Cluster) (except : List LeaseId) : List Lease :=
  (OrdMap.vals c.leases).filter fun lease =>
    lease.id ∉ except && leaseOccupies lease (lease.id ∈ c.openBindingLeases)

theorem mem_occupying (h : LeasesWellFormed c.leases) {except : List LeaseId} {lease : Lease} :
    lease ∈ c.occupying except ↔
      c.leases[lease.id]? = some lease ∧ lease.id ∈ c.holders \ except.toFinset := by
  simp only [occupying, List.mem_filter, OrdMap.mem_vals, Bool.and_eq_true, decide_eq_true_eq,
    Finset.mem_sdiff, List.mem_toFinset, mem_holders h]
  constructor
  · rintro ⟨⟨id, hlease⟩, hexcept, hoccupies⟩
    rw [h.key hlease] at hexcept ⊢
    rw [occupying_eq hlease] at hoccupies
    exact ⟨hlease, hoccupies, hexcept⟩
  · rintro ⟨hlease, hoccupies, hexcept⟩
    exact ⟨⟨lease.id, hlease⟩, hexcept, (occupying_eq hlease).trans hoccupies⟩

theorem all_occupying_ne (h : LeasesWellFormed c.leases) {except : List LeaseId} {p : LeaseId} :
    (c.occupying except).all (fun other => other.id ≠ p) ↔ p ∉ c.holders \ except.toFinset := by
  simp only [List.all_eq_true, decide_eq_true_eq]
  constructor
  · intro hall hp
    obtain ⟨lease, hlease, -⟩ :=
      (occupies_iff h).mp ((mem_holders h).mp (Finset.mem_sdiff.mp hp).1)
    have hkey := h.key hlease
    exact hall lease ((mem_occupying h).mpr ⟨hkey.symm ▸ hlease, hkey.symm ▸ hp⟩) hkey
  · rintro hp other hother rfl
    exact hp ((mem_occupying h).mp hother).2

/-- The roots that the occupancy of the source adds up. -/
def rootIds (c : Cluster) (except : List LeaseId) : List LeaseId :=
  ((c.occupying except).filter fun lease => lease.parent.all fun parent =>
    (c.occupying except).all fun other => other.id ≠ parent).map Lease.id

theorem mem_rootIds (h : LeasesWellFormed c.leases) {except : List LeaseId} {id : LeaseId} :
    id ∈ c.rootIds except ↔ id ∈ roots c.parentOf (c.holders \ except.toFinset) := by
  simp only [rootIds, List.mem_map, List.mem_filter, mem_roots, Option.all_eq_true,
    all_occupying_ne h]
  constructor
  · rintro ⟨lease, ⟨hlease, hroot⟩, rfl⟩
    obtain ⟨hfound, hheld⟩ := (mem_occupying h).mp hlease
    rw [parentOf_of_get hfound]
    exact ⟨hheld, hroot⟩
  · rintro ⟨hheld, hroot⟩
    obtain ⟨lease, hlease, -⟩ :=
      (occupies_iff h).mp ((mem_holders h).mp (Finset.mem_sdiff.mp hheld).1)
    rw [parentOf_of_get hlease] at hroot
    obtain rfl := h.key hlease
    exact ⟨lease, ⟨(mem_occupying h).mpr ⟨hlease, hheld⟩, hroot⟩, rfl⟩

/-- The computed occupancy is what the roots claim, modulo the word size. -/
theorem quantityGet_occupancyExcept (h : LeasesWellFormed c.leases) (except : List LeaseId)
    (n : NodeId) (d : CapacityDimension) :
    quantityGet ((c.occupancyExcept except).usedOn n) d =
      UInt64.ofNat (rootTotal c.parentOf (c.claimOf (n, d)) (c.holders \ except.toFinset)) := by
  have hdistinct : ∀ lease ∈ c.occupying except, DistinctNodes lease.allocation.claims :=
    fun lease hlease => h.distinct ((mem_occupying h).mp hlease).1
  have hsum := quantityGet_foldl_addClaims (fun lease => decide (lease.id ∈ c.rootIds except))
    (c.occupying except) hdistinct n d
  simp only [decide_eq_true_eq] at hsum
  refine hsum.trans (congrArg UInt64.ofNat ?_)
  rw [occupying, List.filter_filter, OrdMap.sum_filter_vals, rootTotal]
  refine Finset.sum_congr ?_ fun id _ => rfl
  ext id
  rw [Finset.mem_filter, ← mem_rootIds h]
  constructor
  · rintro ⟨hid, hselected⟩
    obtain ⟨lease, hlease⟩ := OrdMap.mem_keySet.mp hid
    simp only [hlease, Option.any_some, Bool.and_eq_true, decide_eq_true_eq, h.key hlease]
      at hselected
    exact hselected.1
  · intro hroot
    obtain ⟨lease, hmem, rfl⟩ := List.mem_map.mp hroot
    have hoccupying := (List.mem_filter.mp hmem).1
    have hlease := ((mem_occupying h).mp hoccupying).1
    refine ⟨OrdMap.mem_keySet.mpr ⟨lease, hlease⟩, ?_⟩
    simp only [hlease, Option.any_some, Bool.and_eq_true, decide_eq_true_eq, hroot, true_and]
    have hselected := (List.mem_filter.mp hoccupying).2
    simpa using hselected

theorem quantityGet_subtreeUsed (h : LeasesWellFormed c.leases) (p except : LeaseId) (n : NodeId)
    (d : CapacityDimension) :
    quantityGet ((subtreeUsed (OrdMap.vals c.leases) c.openBindingLeases p except).usedOn n) d =
      UInt64.ofNat (childTotal c.parentOf (c.claimOf (n, d)) (c.holders \ {except}) p) := by
  have hdistinct : ∀ lease ∈ OrdMap.vals c.leases, DistinctNodes lease.allocation.claims := by
    intro lease hlease
    obtain ⟨id, hid⟩ := OrdMap.mem_vals.mp hlease
    exact h.distinct hid
  have hsum := quantityGet_foldl_addClaims (fun lease =>
    decide (lease.id ≠ except ∧ lease.parent = some p) &&
      leaseOccupies lease (lease.id ∈ c.openBindingLeases)) (OrdMap.vals c.leases) hdistinct n d
  have hfold : (fun used (lease : Lease) => if lease.id = except ∨ lease.parent ≠ some p then used
      else if ¬leaseOccupies lease (lease.id ∈ c.openBindingLeases) then used
      else addClaims used lease) =
      fun used lease => if (decide (lease.id ≠ except ∧ lease.parent = some p) &&
        leaseOccupies lease (lease.id ∈ c.openBindingLeases)) = true
        then addClaims used lease else used := by
    funext used lease
    by_cases hid : lease.id = except <;> by_cases hparent : lease.parent = some p <;>
      cases leaseOccupies lease (lease.id ∈ c.openBindingLeases) <;> simp [hid, hparent]
  rw [Occupancy.usedOn, subtreeUsed, hfold]
  refine hsum.trans (congrArg UInt64.ofNat ?_)
  rw [OrdMap.sum_filter_vals, childTotal]
  refine Finset.sum_congr ?_ fun id _ => rfl
  ext id
  simp only [Finset.mem_filter, Finset.mem_sdiff, Finset.mem_singleton, mem_holders h,
    OrdMap.mem_keySet]
  cases hlease : c.leases[id]? with
  | none => simp [occupies, hlease]
  | some lease =>
    simp only [Option.any_some, Bool.and_eq_true, decide_eq_true_eq, h.key hlease,
      parentOf_of_get hlease, Option.some.injEq, exists_eq', true_and]
    rw [← h.key hlease, occupying_eq (h.key hlease ▸ hlease)]
    tauto

theorem capacityOf_lt (c : Cluster) (resource : Resource) : c.capacityOf resource < 2 ^ 64 := by
  unfold capacityOf
  cases c.graph.node resource.1 with
  | none => simp
  | some node => simpa using UInt64.toNat_lt _

theorem holders_sdiff_fresh (h : LeasesWellFormed c.leases) {id : LeaseId}
    (hfresh : c.leases[id]? = none) : c.holders \ {id} = c.holders := by
  apply Finset.sdiff_eq_self_of_disjoint
  rw [Finset.disjoint_singleton_right, mem_holders h]
  intro hoccupies
  obtain ⟨lease, hlease, -⟩ := (occupies_iff h).mp hoccupies
  simp [hfresh] at hlease

theorem occupancyExcept_fresh (h : LeasesWellFormed c.leases) {id : LeaseId}
    (hfresh : c.leases[id]? = none) : c.occupancyExcept [id] = c.occupancy := by
  have hsame : c.occupying [id] = c.occupying [] := by
    apply List.filter_congr
    intro lease hlease
    obtain ⟨key, hkey⟩ := OrdMap.mem_vals.mp hlease
    have hne : lease.id ≠ id := by
      rintro rfl
      rw [h.key hkey, hkey] at hfresh
      cases hfresh
    simp [hne]
  unfold occupancy occupancyExcept occupancyFromLeases
  unfold occupying at hsame
  rw [hsame]

/-- What a passed capacity check means for the exact totals. -/
theorem requireCover_ok (h : LeasesWellFormed c.leases)
    (hwithin : ∀ r, rootTotal c.parentOf (c.claimOf r) c.holders ≤ c.capacityOf r) {id : LeaseId}
    {claims : List Claim} (hfresh : c.leases[id]? = none) (hdistinct : DistinctNodes claims)
    (hok : c.requireCover id claims = .ok ()) (r : Resource) :
    rootTotal c.parentOf (c.claimOf r) c.holders + claimOn claims r.1 r.2 ≤ c.capacityOf r := by
  obtain ⟨n, d⟩ := r
  by_cases hn : n ∈ claims.map Claim.node
  · obtain ⟨claim, hclaim, rfl⟩ := List.mem_map.mp hn
    have hused := quantityGet_occupancyExcept h [id] claim.node d
    rw [List.toFinset_cons, List.toFinset_nil, insert_empty_eq, holders_sdiff_fresh h hfresh] at hused
    simp only [requireCover, List.forM_eq_forM, forM_ok, check_bind_ok, refuseIf_ok, not_not] at hok
    obtain ⟨covered, hcover, rfl⟩ := hok claim hclaim
    obtain ⟨found, hfound, hfits⟩ := Occupancy.canCover_ok.mp hcover
    have hcapacity : c.capacityOf (claim.node, d) = (quantityGet found.capacity d).toNat := by
      simp [capacityOf, hfound]
    have htotal := hwithin (claim.node, d)
    have hfit := hfits d
    rw [hused] at hfit
    rw [hcapacity] at htotal ⊢
    rw [claimOn_of_mem hdistinct hclaim]
    exact add_le_of_le_saturatingSub htotal hfit
  · rw [claimOn_of_not_mem d hn, Nat.add_zero]
    exact hwithin (n, d)

theorem requireWithinParent_fits {id p : LeaseId} {parent : Lease} {claims : List Claim}
    (hok : c.requireWithinParent id p parent claims = .ok ()) :
    ∀ claim ∈ claims, ∃ parentClaim ∈ parent.allocation.claims, parentClaim.node = claim.node ∧
      ∀ d, quantityGet claim.quantity d ≤ saturatingSub (quantityGet parentClaim.quantity d)
        (quantityGet ((subtreeUsed (OrdMap.vals c.leases) c.openBindingLeases p id).usedOn
          claim.node) d) := by
  intro claim hclaim
  simp only [requireWithinParent, List.forM_eq_forM, check_bind_ok, forM_ok, okOr_ok, refuseIf_ok,
    not_not] at hok
  obtain ⟨-, -, hclaims⟩ := hok
  obtain ⟨parentClaim, hfind, hfit⟩ := hclaims claim hclaim
  have hnode := List.find?_some hfind
  exact ⟨parentClaim, List.mem_of_find?_eq_some hfind, by simpa using hnode,
    (claimFits_iff _ _ _).mp hfit⟩

theorem requireWithinParent_nodes {id p : LeaseId} {parent : Lease} {claims : List Claim}
    (hok : c.requireWithinParent id p parent claims = .ok ()) :
    ∀ claim ∈ claims, claim.node ∈ parent.allocation.claims.map Claim.node := by
  intro claim hclaim
  obtain ⟨parentClaim, hmem, hnode, -⟩ := requireWithinParent_fits hok claim hclaim
  exact List.mem_map.mpr ⟨parentClaim, hmem, hnode⟩

theorem claimOf_lt (h : LeasesWellFormed c.leases) (resource : Resource) (id : LeaseId) :
    c.claimOf resource id < 2 ^ 64 := by
  obtain ⟨n, d⟩ := resource
  cases hlease : c.leases[id]? with
  | none => simp [claimOf, hlease]
  | some lease =>
    rw [claimOf_of_get hlease, Lease.claimOn]
    by_cases hn : n ∈ lease.allocation.claims.map Claim.node
    · obtain ⟨claim, hclaim, rfl⟩ := List.mem_map.mp hn
      rw [claimOn_of_mem (h.distinct hlease) hclaim]
      exact UInt64.toNat_lt _
    · simp [claimOn_of_not_mem d hn]

theorem requireWithinParent_ok (h : LeasesWellFormed c.leases) {id p : LeaseId} {parent : Lease}
    {claims : List Claim} (hfresh : c.leases[id]? = none) (hp : c.leases[p]? = some parent)
    (hcontained : ∀ r, childTotal c.parentOf (c.claimOf r) c.holders p ≤ c.claimOf r p)
    (hdistinct : DistinctNodes claims) (hok : c.requireWithinParent id p parent claims = .ok ())
    (r : Resource) :
    childTotal c.parentOf (c.claimOf r) c.holders p + claimOn claims r.1 r.2 ≤ c.claimOf r p := by
  obtain ⟨n, d⟩ := r
  by_cases hn : n ∈ claims.map Claim.node
  · obtain ⟨claim, hclaim, rfl⟩ := List.mem_map.mp hn
    obtain ⟨parentClaim, hmem, hnode, hfit⟩ := requireWithinParent_fits hok claim hclaim
    have hused := quantityGet_subtreeUsed h p id claim.node d
    rw [holders_sdiff_fresh h hfresh] at hused
    have hparent : c.claimOf (claim.node, d) p = (quantityGet parentClaim.quantity d).toNat := by
      rw [claimOf_of_get hp, Lease.claimOn, ← hnode, claimOn_of_mem (h.distinct hp) hmem]
    have htotal := hcontained (claim.node, d)
    have hfits := hfit d
    rw [hused] at hfits
    rw [hparent] at htotal ⊢
    rw [claimOn_of_mem hdistinct hclaim]
    exact add_le_of_le_saturatingSub htotal hfits
  · rw [claimOn_of_not_mem d hn, Nat.add_zero]
    exact hcontained (n, d)

theorem refuseShrunk_ok (h : LeasesWellFormed c.leases)
    (hwithin : ∀ r, rootTotal c.parentOf (c.claimOf r) c.holders ≤ c.capacityOf r) {staged : Graph}
    (hok : c.refuseShrunk staged = .ok ()) (r : Resource) :
    rootTotal c.parentOf (c.claimOf r) c.holders ≤ { c with graph := staged }.capacityOf r := by
  obtain ⟨n, d⟩ := r
  have hused := quantityGet_occupancyExcept h [] n d
  simp only [List.toFinset_nil, Finset.sdiff_empty] at hused
  have hexact : (UInt64.ofNat (rootTotal c.parentOf (c.claimOf (n, d)) c.holders)).toNat =
      rootTotal c.parentOf (c.claimOf (n, d)) c.holders :=
    UInt64.toNat_ofNat_of_lt' ((hwithin _).trans_lt (capacityOf_lt c _))
  have hnone : c.occupancy.exceedsCapacity staged = .ok none := by
    simp only [refuseShrunk, check_bind_ok] at hok
    obtain ⟨exceeding, hexceeding, hok⟩ := hok
    cases exceeding with
    | none => exact hexceeding
    | some node => simp at hok
  rw [← hexact, ← hused]
  cases hn : c.occupancy.used[n]? with
  | none =>
    have hzero : (c.occupancyExcept []).usedOn n = ∅ := by
      change c.occupancy.used[n]?.getD ∅ = ∅
      rw [hn]
      rfl
    simp [hzero]
  | some used =>
    have hsome : (c.occupancyExcept []).usedOn n = used := by
      change c.occupancy.used[n]?.getD ∅ = used
      rw [hn]
      rfl
    obtain ⟨found, hfound, hle⟩ := Occupancy.exceedsCapacity_none hnone hn
    have hcapacity : { c with graph := staged }.capacityOf (n, d) =
        (quantityGet found.capacity d).toNat := by
      simp [capacityOf, hfound]
    rw [hsome, hcapacity]
    exact UInt64.le_iff_toNat_le.mp (hle d)

end Tables

/-! Exact amounts of a cluster. -/

/-- Whether a lease counts towards the occupancy that leaves `except` out. -/
def counts (c : Cluster) (except : List LeaseId) (id : LeaseId) : Bool :=
  id ∉ except && c.occupies id

/-- What the roots claim of one dimension of a node, leaving `except` out: the
leases that occupy and whose parent is absent or does not. -/
def rootClaims (c : Cluster) (except : List LeaseId) (node : NodeId)
    (dimension : CapacityDimension) : ℕ :=
  (((OrdMap.vals c.leases).filter fun lease => c.counts except lease.id &&
    lease.parent.all fun parent => !c.counts except parent).map
      fun lease => lease.claimOn node dimension).sum

/-- What the occupying children of a lease claim, leaving `except` out. -/
def childClaims (c : Cluster) (parent : LeaseId) (except : List LeaseId) (node : NodeId)
    (dimension : CapacityDimension) : ℕ :=
  (((OrdMap.vals c.leases).filter fun lease => c.counts except lease.id &&
    lease.parent = some parent).map fun lease => lease.claimOn node dimension).sum

section Exact
variable {c : Cluster}

theorem counts_iff (h : LeasesWellFormed c.leases) {except : List LeaseId} {id : LeaseId} :
    c.counts except id ↔ id ∈ c.holders \ except.toFinset := by
  simp [counts, mem_holders h, and_comm]

theorem rootClaims_eq (h : LeasesWellFormed c.leases) (except : List LeaseId) (n : NodeId)
    (d : CapacityDimension) : c.rootClaims except n d =
      rootTotal c.parentOf (c.claimOf (n, d)) (c.holders \ except.toFinset) := by
  rw [rootClaims, OrdMap.sum_filter_vals, rootTotal]
  refine Finset.sum_congr ?_ fun id _ => rfl
  ext id
  rw [Finset.mem_filter, mem_roots, OrdMap.mem_keySet]
  cases hlease : c.leases[id]? with
  | none => simp [mem_holders h, occupies, hlease]
  | some lease =>
    simp only [Option.any_some, Bool.and_eq_true, h.key hlease, counts_iff h, Option.all_eq_true,
      Bool.not_eq_true', ← Bool.not_eq_true, parentOf_of_get hlease, Option.some.injEq, exists_eq',
      true_and, Option.mem_def]

theorem childClaims_eq (h : LeasesWellFormed c.leases) (p : LeaseId) (except : List LeaseId)
    (n : NodeId) (d : CapacityDimension) : c.childClaims p except n d =
      childTotal c.parentOf (c.claimOf (n, d)) (c.holders \ except.toFinset) p := by
  rw [childClaims, OrdMap.sum_filter_vals, childTotal]
  refine Finset.sum_congr ?_ fun id _ => rfl
  ext id
  rw [Finset.mem_filter, Finset.mem_filter, OrdMap.mem_keySet]
  cases hlease : c.leases[id]? with
  | none => simp [mem_holders h, occupies, hlease]
  | some lease =>
    simp only [Option.any_some, Bool.and_eq_true, h.key hlease, counts_iff h, decide_eq_true_eq,
      parentOf_of_get hlease, Option.some.injEq, exists_eq', true_and]

end Exact
end Archon.Kernel.Cluster
