import Archon.Kernel.Backfill
import Archon.Kernel.Retries

/-! Quota. What a request is charged is what placement grants for it, class by
class and dimension by dimension, and what an owner has used is what its root
leases claim. All of it fits in the capacity of the graph, so while that fits in
a word no addition of the source wraps and a ceiling holds after admission. -/
namespace Archon.Kernel
open Fallible Select Admit Holdings

/-! Exact amounts by class. -/

/-- The class a node is charged to. -/
def chargedKind (graph : Graph) (node : NodeId) : ResourceClass :=
  ((graph.node node).map Node.kind).getD .machine

/-- Exactly what claims take of one class and dimension. -/
def kindTotal (graph : Graph) (claims : List Claim) (kind : ResourceClass)
    (dimension : CapacityDimension) : ℕ :=
  ((claims.filter fun claim => chargedKind graph claim.node = kind).map
    fun claim => (quantityGet claim.quantity dimension).toNat).sum

/-- The capacity of all nodes of a class. -/
def totalCapacity (graph : Graph) (kind : ResourceClass) (dimension : CapacityDimension) : ℕ :=
  (((OrdMap.vals graph.nodes).filter fun node => node.kind = kind).map
    fun node => (quantityGet node.capacity dimension).toNat).sum

/-- What the root leases of an owner claim of one class and dimension. -/
def ownedTotal (graph : Graph) (leases : OrdMap LeaseId Lease) (openBindings : List LeaseId)
    (owner : OwnerId) (kind : ResourceClass) (dimension : CapacityDimension) : ℕ :=
  (((chargedRoots leases openBindings).filter fun lease => lease.owner = owner).map
    fun lease => kindTotal graph lease.allocation.claims kind dimension).sum

/-- What a request is charged of one class and dimension. -/
def chargeTotal (needs : List Need) (kind : ResourceClass) (dimension : CapacityDimension) : ℕ :=
  ((needs.filter fun need => need.kind = kind).map
    fun need => (quantityGet (needCharge need) dimension).toNat).sum

section Sums
variable {graph : Graph} {kind : ResourceClass} {d : CapacityDimension}

theorem foldl_add_eq {α : Type} (chosen : α → Bool) (amount : α → UInt64) (items : List α)
    (start : UInt64) :
    items.foldl (fun acc item => if chosen item then acc + amount item else acc) start =
      start + UInt64.ofNat ((items.filter chosen).map fun item => (amount item).toNat).sum := by
  induction items generalizing start with
  | nil => simp
  | cons item items ih =>
    rw [List.foldl_cons, ih, List.filter_cons]
    split
    · rw [List.map_cons, List.sum_cons, UInt64.ofNat_add, UInt64.ofNat_toNat, UInt64.add_assoc]
    · rfl

theorem sum_filter_eq {α : Type} (chosen : α → Bool) (amount : α → ℕ) (items : List α) :
    ((items.filter chosen).map amount).sum =
      (items.map fun item => if chosen item then amount item else 0).sum := by
  induction items with
  | nil => rfl
  | cons item items ih =>
    rw [List.filter_cons, List.map_cons, List.sum_cons, ← ih]
    split <;> simp

theorem sum_claimOn (nodes : Finset NodeId) (claims : List Claim) (d : CapacityDimension) :
    ∑ n ∈ nodes, claimOn claims n d = ((claims.filter fun claim => claim.node ∈ nodes).map
      fun claim => (quantityGet claim.quantity d).toNat).sum := by
  induction claims with
  | nil => simp [claimOn]
  | cons claim claims ih =>
    simp only [claimOn_cons, Finset.sum_add_distrib, Finset.sum_ite_eq, ih, List.filter_cons]
    by_cases hmem : claim.node ∈ nodes <;> simp [hmem]

theorem kindTotal_eq {nodes : Finset NodeId} {claims : List Claim}
    (hnodes : ∀ claim ∈ claims, claim.node ∈ nodes ↔ chargedKind graph claim.node = kind) :
    kindTotal graph claims kind d = ∑ n ∈ nodes, claimOn claims n d := by
  rw [sum_claimOn, kindTotal]
  congr 2
  apply List.filter_congr
  intro claim hclaim
  simp [hnodes claim hclaim]

/-- The nodes that claims name, of one class. -/
def kindNodes (graph : Graph) (claims : List Claim) (kind : ResourceClass) : Finset NodeId :=
  (claims.map Claim.node).toFinset.filter fun node => chargedKind graph node = kind

theorem mem_kindNodes {claims claims' : List Claim} (hsub : claims ⊆ claims') :
    ∀ claim ∈ claims, claim.node ∈ kindNodes graph claims' kind ↔
      chargedKind graph claim.node = kind := by
  intro claim hclaim
  have hnamed : claim.node ∈ claims'.map Claim.node := List.mem_map_of_mem (hsub hclaim)
  simp only [kindNodes, Finset.mem_filter, List.mem_toFinset, hnamed, true_and]

end Sums

/-! What is charged. -/

section Charges
variable {graph : Graph} {kind : ResourceClass} {d : CapacityDimension}

theorem sum_claimsByNode {claims : List Claim} (hdistinct : DistinctNodes claims) :
    ((claimsByNode claims).toList.map fun p =>
      if chargedKind graph p.1 = kind then (quantityGet p.2 d).toNat else 0).sum =
        kindTotal graph claims kind d := by
  rw [OrdMap.sum_toList (claimsByNode claims) fun n quantity =>
    if chargedKind graph n = kind then (quantityGet quantity d).toNat else 0]
  have hnodes : ∀ claim ∈ claims, claim.node ∈
      (OrdMap.keySet (claimsByNode claims)).filter (chargedKind graph · = kind) ↔
        chargedKind graph claim.node = kind := by
    intro claim hclaim
    have hkey : claim.node ∈ OrdMap.keySet (claimsByNode claims) :=
      List.mem_toFinset.mpr (mem_keys_claimsByNode.mpr (List.mem_map_of_mem hclaim))
    simp [hkey]
  rw [kindTotal_eq hnodes, Finset.sum_filter]
  refine Finset.sum_congr rfl fun n hn => ?_
  obtain ⟨quantity, hquantity⟩ := OrdMap.mem_keySet.mp hn
  have hexact := toNat_claimsByNode hdistinct n d
  rw [hquantity, Option.getD_some] at hexact
  simp [hquantity, hexact]

theorem quantityGet_chargeLease (entry : ClassUsage) {lease : Lease}
    (hdistinct : DistinctNodes lease.allocation.claims) :
    quantityGet ((chargeLease graph entry lease)[kind]?.getD ∅) d =
      quantityGet (entry[kind]?.getD ∅) d +
        UInt64.ofNat (kindTotal graph lease.allocation.claims kind d) := by
  have hfold := @List.foldl_hom _ _ _ (fun entry : ClassUsage => quantityGet (entry[kind]?.getD ∅) d)
    (fun entry (p : NodeId × Quantity) =>
      OrdMap.upsert entry (chargedKind graph p.1) ∅ (quantityAddAssign · p.2))
    (fun acc p => if chargedKind graph p.1 = kind then acc + quantityGet p.2 d else acc)
    ((claimsByNode lease.allocation.claims).toList) entry (by
      intro entry p
      rw [OrdMap.get_upsert]
      by_cases hkind : chargedKind graph p.1 = kind
      · subst hkind
        simp [quantityGet_addAssign]
      · simp [hkind])
  have hadd := foldl_add_eq (fun p : NodeId × Quantity => decide (chargedKind graph p.1 = kind))
    (fun p => quantityGet p.2 d) (claimsByNode lease.allocation.claims).toList
    (quantityGet (entry[kind]?.getD ∅) d)
  simp only [decide_eq_true_eq] at hadd
  refine hfold.symm.trans (hadd.trans ?_)
  rw [sum_filter_eq, ← sum_claimsByNode hdistinct]
  simp only [decide_eq_true_eq]

theorem quantityGet_ownerUsage {leases : OrdMap LeaseId Lease} (h : LeasesWellFormed leases)
    (openBindings : List LeaseId) (owner : OwnerId) :
    quantityGet (((ownerUsage graph leases openBindings)[owner]?.getD ∅)[kind]?.getD ∅) d =
      UInt64.ofNat (ownedTotal graph leases openBindings owner kind d) := by
  have hgen : ∀ (charged : List Lease) (usage : OrdMap OwnerId ClassUsage),
      (∀ lease ∈ charged, DistinctNodes lease.allocation.claims) →
      quantityGet (((charged.foldl (fun usage lease =>
        OrdMap.upsert usage lease.owner ∅ (chargeLease graph · lease)) usage)[owner]?.getD ∅)[kind]?.getD
          ∅) d = quantityGet ((usage[owner]?.getD ∅)[kind]?.getD ∅) d +
        UInt64.ofNat ((charged.filter fun lease => lease.owner = owner).map
          fun lease => kindTotal graph lease.allocation.claims kind d).sum := by
    intro charged
    induction charged with
    | nil => simp
    | cons lease charged ih =>
      intro usage hdistinct
      rw [List.foldl_cons, ih _ fun other hother => hdistinct other (List.mem_cons_of_mem _ hother),
        OrdMap.get_upsert, List.filter_cons]
      by_cases howner : lease.owner = owner
      · subst howner
        simp only [if_true, Option.getD_some, decide_true, List.map_cons, List.sum_cons]
        rw [quantityGet_chargeLease _ (hdistinct lease List.mem_cons_self), UInt64.ofNat_add,
          UInt64.add_assoc]
      · simp [howner]
  have hcharged : ∀ lease ∈ chargedRoots leases openBindings, DistinctNodes lease.allocation.claims := by
    intro lease hlease
    obtain ⟨id, hid⟩ := OrdMap.mem_vals.mp (List.mem_filter.mp hlease).1
    exact h.distinct hid
  unfold ownerUsage ownedTotal
  rw [hgen _ _ hcharged]
  simp

theorem quantityGet_projected (usage : ClassUsage) (needs : List Need) :
    quantityGet ((needs.foldl (fun projected need =>
      OrdMap.upsert projected need.kind ∅ (quantityAddAssign · (needCharge need))) usage)[kind]?.getD
        ∅) d = quantityGet (usage[kind]?.getD ∅) d + UInt64.ofNat (chargeTotal needs kind d) := by
  have hfold := @List.foldl_hom _ _ _ (fun usage : ClassUsage => quantityGet (usage[kind]?.getD ∅) d)
    (fun projected (need : Need) =>
      OrdMap.upsert projected need.kind ∅ (quantityAddAssign · (needCharge need)))
    (fun acc need => if need.kind = kind then acc + quantityGet (needCharge need) d else acc)
    needs usage (by
      intro usage need
      rw [OrdMap.get_upsert]
      by_cases hkind : need.kind = kind
      · subst hkind
        simp [quantityGet_addAssign]
      · simp [hkind])
  have hadd := foldl_add_eq (fun need : Need => decide (need.kind = kind))
    (fun need => quantityGet (needCharge need) d) needs (quantityGet (usage[kind]?.getD ∅) d)
  simp only [decide_eq_true_eq] at hadd
  exact hfold.symm.trans hadd

theorem withinBudget_le {usage : ClassUsage} {request : Request} {ceilings : ClassUsage}
    (h : withinBudget usage request ceilings) {ceiling : Quantity}
    (hceiling : ceilings[kind]? = some ceiling) :
    quantityGet (usage[kind]?.getD ∅) d + UInt64.ofNat (chargeTotal request.needs kind d) ≤
      quantityGet ceiling d := by
  unfold withinBudget at h
  split at h
  · rename_i hempty
    rw [Std.ExtTreeMap.isEmpty_iff] at hempty
    simp [hempty] at hceiling
  · dsimp only at h
    rw [List.all_eq_true] at h
    have hle := h (kind, ceiling) (Std.ExtTreeMap.mem_toList_iff_getElem?_eq_some.mpr hceiling)
    rw [← quantityGet_projected]
    exact (quantityLe_iff _ _).mp hle d

/-! What is granted. -/

theorem needCharge_consumable {need : Need} (h : isConsumableNeed need) :
    needCharge need = consumableQuantity need := by
  simp only [isConsumableNeed, Bool.or_eq_true, decide_eq_true_eq] at h
  unfold needCharge consumableQuantity
  by_cases hmemory : need.kind = .memory
  · rw [if_pos hmemory, if_pos hmemory]
  · rw [if_neg hmemory, if_neg hmemory, if_pos (h.resolve_left hmemory)]

theorem needCharge_countable {need : Need} (h : isConsumableNeed need = false) :
    needCharge need = qty .count (max (quantityGet need.quantity .count) 1) := by
  simp only [isConsumableNeed, Bool.or_eq_false_iff, decide_eq_false_iff_not] at h
  unfold needCharge
  rw [if_neg h.1, h.2]
  rfl

theorem quantityGet_qty (dimension d : CapacityDimension) (amount : UInt64) :
    quantityGet (qty dimension amount) d = if dimension = d then amount else 0 := by
  rw [qty, quantityGet_insert, quantityGet_empty]

theorem sum_groupFor {need : Need} {group : List Claim} (h : GroupFor need group) :
    (group.map fun claim => (quantityGet claim.quantity d).toNat).sum =
      (quantityGet (needCharge need) d).toNat := by
  unfold GroupFor at h
  split at h
  · rename_i hconsumable
    obtain ⟨node, rfl⟩ := h
    rw [needCharge_consumable hconsumable]
    simp
  · rename_i hconsumable
    obtain ⟨hlength, hunits⟩ := h
    have hsame : group.map (fun claim => (quantityGet claim.quantity d).toNat) =
        List.replicate group.length (quantityGet (qty .count 1) d).toNat := by
      refine List.eq_replicate_iff.mpr ⟨List.length_map _, ?_⟩
      intro amount hamount
      obtain ⟨claim, hclaim, rfl⟩ := List.mem_map.mp hamount
      rw [hunits claim hclaim]
    rw [hsame, List.sum_replicate, needCharge_countable (by simpa using hconsumable), quantityGet_qty,
      quantityGet_qty, hlength]
    split
    · rw [toNat_max, smul_eq_mul]
      exact Nat.mul_one _
    · rfl

theorem kindTotal_append (claims claims' : List Claim) :
    kindTotal graph (claims ++ claims') kind d =
      kindTotal graph claims kind d + kindTotal graph claims' kind d := by
  simp [kindTotal]

theorem kindTotal_granted {needs : List Need} {groups : List (List Claim)}
    (h : List.Forall₂ (fun need group => GroupFor need group ∧
      ∀ claim ∈ group, chargedKind graph claim.node = need.kind) needs groups) :
    kindTotal graph groups.flatten kind d = chargeTotal needs kind d := by
  induction h with
  | nil => rfl
  | @cons need group needs groups hgroup _ ih =>
    obtain ⟨hfor, hkinds⟩ := hgroup
    have hall : group.filter (fun claim => chargedKind graph claim.node = kind) =
        if need.kind = kind then group else [] := by
      split
      · rename_i hkind
        exact List.filter_eq_self.mpr fun claim hclaim => by simp [hkinds claim hclaim, hkind]
      · rename_i hkind
        exact List.filter_eq_nil_iff.mpr fun claim hclaim => by simp [hkinds claim hclaim, hkind]
    rw [List.flatten_cons, kindTotal_append, ih]
    simp only [kindTotal, chargeTotal, hall, List.filter_cons]
    by_cases hkind : need.kind = kind
    · simp [hkind, sum_groupFor hfor]
    · simp [hkind]

end Charges

theorem sum_sum_map {α : Type} (nodes : Finset NodeId) (items : List α) (amount : α → NodeId → ℕ) :
    (items.map fun item => ∑ n ∈ nodes, amount item n).sum =
      ∑ n ∈ nodes, (items.map fun item => amount item n).sum := by
  induction items with
  | nil => simp
  | cons item items ih =>
    simp only [List.map_cons, List.sum_cons, Finset.sum_add_distrib, ih]

/-! Within the capacity. -/

namespace Cluster

theorem sum_capacityOf_le (c : Cluster) (kind : ResourceClass) (d : CapacityDimension)
    (nodes : Finset NodeId) (hnodes : ∀ n ∈ nodes, chargedKind c.graph n = kind) :
    ∑ n ∈ nodes, c.capacityOf (n, d) ≤ totalCapacity c.graph kind d := by
  rw [totalCapacity, OrdMap.sum_filter_vals]
  refine Finset.sum_le_sum_of_ne_zero ?_
  intro n hn hpositive
  cases hnode : c.graph.nodes[n]? with
  | none => simp [capacityOf, Graph.node, hnode] at hpositive
  | some node =>
    have hkind := hnodes n hn
    simp only [chargedKind, Graph.node, hnode, Option.map_some, Option.getD_some] at hkind
    refine Finset.mem_filter.mpr ⟨OrdMap.mem_keySet.mpr ⟨node, hnode⟩, ?_⟩
    simp [hnode, hkind]

section Bound
variable {events : List Event}

theorem sum_ownedRoots_le (owner : OwnerId) (n : NodeId) (d : CapacityDimension) :
    (((chargedRoots (run events).leases (run events).openBindingLeases).filter
      fun lease => lease.owner = owner).map fun lease => lease.claimOn n d).sum ≤
        (run events).rootClaims [] n d := by
  have hleases := (wellFormed_run events).leases
  rw [chargedRoots, List.filter_filter, rootClaims, OrdMap.sum_filter_vals, OrdMap.sum_filter_vals]
  refine Finset.sum_le_sum_of_subset (Finset.monotone_filter_right _ ?_)
  intro id hid hcharged
  obtain ⟨lease, hlease⟩ := OrdMap.mem_keySet.mp hid
  simp only [hlease, Option.any_some, Bool.and_eq_true, decide_eq_true_eq, Option.isNone_iff_eq_none]
    at hcharged ⊢
  obtain ⟨-, hroot, hoccupies⟩ := hcharged
  rw [occupying_eq hlease] at hoccupies
  refine ⟨?_, by simp [hroot]⟩
  simp [counts, hleases.key hlease, hoccupies]

/-- What an owner has used and what is granted beside all occupancy fit in the
capacity of the class. -/
theorem ownedTotal_add_le {claims : List Claim} (hdistinct : DistinctNodes claims)
    (hcovered : ∀ claim ∈ claims, (run events).occupancy.canCover (run events).graph claim = .ok true)
    (owner : OwnerId) (kind : ResourceClass) (d : CapacityDimension) :
    ownedTotal (run events).graph (run events).leases (run events).openBindingLeases owner kind d +
      kindTotal (run events).graph claims kind d ≤ totalCapacity (run events).graph kind d := by
  let roots := (chargedRoots (run events).leases (run events).openBindingLeases).filter
    fun lease => lease.owner = owner
  let named := (roots.flatMap fun lease => lease.allocation.claims) ++ claims
  let nodes := kindNodes (run events).graph named kind
  have howned : ownedTotal (run events).graph (run events).leases (run events).openBindingLeases owner
      kind d = ∑ n ∈ nodes, (roots.map fun lease => lease.claimOn n d).sum := by
    rw [← sum_sum_map]
    refine congrArg List.sum (List.map_congr_left fun lease hlease => ?_)
    refine kindTotal_eq (mem_kindNodes ?_)
    intro claim hclaim
    exact List.mem_append_left _ (List.mem_flatMap.mpr ⟨lease, hlease, hclaim⟩)
  have hgranted : kindTotal (run events).graph claims kind d = ∑ n ∈ nodes, claimOn claims n d :=
    kindTotal_eq (mem_kindNodes (List.subset_append_right _ _))
  have hnode : ∀ n, (roots.map fun lease => lease.claimOn n d).sum + claimOn claims n d ≤
      (run events).capacityOf (n, d) := by
    intro n
    obtain ⟨hwithin, hexact, -⟩ := roots_within_capacity events n d
    refine (Nat.add_le_add_right (sum_ownedRoots_le owner n d) _).trans ?_
    by_cases hn : n ∈ claims.map Claim.node
    · obtain ⟨claim, hclaim, rfl⟩ := List.mem_map.mp hn
      obtain ⟨found, hfound, hfits⟩ := Occupancy.canCover_ok.mp (hcovered claim hclaim)
      have hcapacity : (run events).capacityOf (claim.node, d) =
          (quantityGet found.capacity d).toNat := by
        simp [capacityOf, hfound]
      have hfit := UInt64.le_iff_toNat_le.mp (hfits d)
      rw [toNat_saturatingSub, hexact] at hfit
      rw [claimOn_of_mem hdistinct hclaim]
      omega
    · rw [claimOn_of_not_mem d hn]
      exact hwithin
  rw [howned, hgranted, ← Finset.sum_add_distrib]
  refine (Finset.sum_le_sum fun n _ => hnode n).trans (sum_capacityOf_le _ kind d nodes ?_)
  intro n hn
  exact (Finset.mem_filter.mp hn).2

theorem ownedTotal_enters (graph : Graph) {leases : OrdMap LeaseId Lease}
    (openBindings : List LeaseId) {lease : Lease} (hfresh : leases[lease.id]? = none)
    (owner : OwnerId) (kind : ResourceClass) (d : CapacityDimension) :
    ownedTotal graph (leases.insert lease.id lease) openBindings owner kind d ≤
      ownedTotal graph leases openBindings owner kind d +
        kindTotal graph lease.allocation.claims kind d := by
  have hother : ∀ id ∈ OrdMap.keySet leases, id ≠ lease.id := by
    rintro id hid rfl
    obtain ⟨found, hfound⟩ := OrdMap.mem_keySet.mp hid
    simp [hfresh] at hfound
  have hsame : ∀ id ∈ OrdMap.keySet leases, (leases.insert lease.id lease)[id]? = leases[id]? := by
    intro id hid
    rw [OrdMap.get_insert, if_neg (hother id hid).symm]
  have hrest : ∀ chosen : Lease → Bool, ∀ amount : Lease → ℕ,
      ∑ id ∈ OrdMap.keySet leases with (leases.insert lease.id lease)[id]?.any chosen,
        ((leases.insert lease.id lease)[id]?.map amount).getD 0 =
      ∑ id ∈ OrdMap.keySet leases with leases[id]?.any chosen, (leases[id]?.map amount).getD 0 := by
    intro chosen amount
    refine Finset.sum_congr (Finset.filter_congr fun id hid => by rw [hsame id hid]) fun id hid => ?_
    rw [hsame id (Finset.mem_filter.mp hid).1]
  simp only [ownedTotal, chargedRoots, List.filter_filter]
  rw [OrdMap.sum_filter_vals, OrdMap.sum_filter_vals, OrdMap.keySet_insert, Finset.filter_insert]
  split
  · rw [Finset.sum_insert fun hin => hother _ (Finset.mem_filter.mp hin).1 rfl, hrest, Nat.add_comm]
    simp
  · rw [hrest]
    exact Nat.le_add_right _ _

theorem resolved_grant {graph : Graph} (hfiled : graph.Filed) {occupancy : Occupancy}
    {request : Request} {avoided : List NodeId} {allocation : Allocation}
    (hplaced : select graph occupancy request avoided = .ok allocation) {resolved : List Claim}
    (hresolved : resolveClaims graph [] allocation.claims = .ok resolved) :
    resolved = allocation.claims := by
  rw [resolveClaims_eq_iff hresolved, List.any_eq_false]
  intro claim hclaim
  obtain ⟨need, found, hfound, hmem, hquantity⟩ := (select_sound hplaced).granted claim hclaim
  obtain ⟨-, ⟨d, hd⟩, -⟩ := (suits_of_candidate hfiled hfound hmem hquantity).contract
  rw [isEmpty_false_of_quantityGet hd]
  exact Bool.false_ne_true

/-- What placement grants is what the request is charged. -/
theorem charge_of_select {graph : Graph} (hfiled : graph.Filed) {occupancy : Occupancy}
    {request : Request} {avoided : List NodeId} {allocation : Allocation}
    (hplaced : select graph occupancy request avoided = .ok allocation) (kind : ResourceClass)
    (d : CapacityDimension) :
    kindTotal graph allocation.claims kind d = chargeTotal request.needs kind d := by
  obtain ⟨-, groups, hclaims, hserved, -⟩ := select_grants hfiled hplaced
  rw [hclaims]
  refine kindTotal_granted (hserved.imp ?_)
  intro need group hgroup
  refine ⟨hgroup.1, ?_⟩
  intro claim hclaim
  obtain ⟨node, hnode, hkind, -⟩ := (hgroup.2 claim hclaim).fits
  simp [chargedKind, hnode, hkind]

theorem usage_within_ceiling {c' : Cluster} {policy : AdmissionPolicy} {avoided : List NodeId}
    {queued : Queued} {admission : Admission} {expiresAt : UInt64}
    (hcapacity : ∀ kind d, totalCapacity (run events).graph kind d < 2 ^ 64)
    (hadmits : Admits (run events).graph (run events).occupancy avoided policy
      (ownerUsage (run events).graph (run events).leases (run events).openBindingLeases) queued
      admission)
    (hopened : Opened (run events) admission.owner admission.allocation expiresAt c')
    (hwell : LeasesWellFormed c'.leases) {kind : ResourceClass} {ceiling : Quantity}
    (hceiling : policy.ownerCeiling[kind]? = some ceiling) (d : CapacityDimension) :
    quantityGet (((ownerUsage c'.graph c'.leases c'.openBindingLeases)[admission.owner]?.getD
      ∅)[kind]?.getD ∅) d ≤ quantityGet ceiling d := by
  have hleases := (wellFormed_run events).leases
  have hfiled := filed_run events
  have hfits := (ownedTotal_add_le (select_sound hadmits.placed).distinct
    (select_covered hfiled hadmits.placed) admission.owner kind d).trans_lt (hcapacity kind d)
  have hbudget := @withinBudget_le kind d _ _ _ hadmits.budget _ hceiling
  rw [← hadmits.owner, quantityGet_ownerUsage hleases, ← charge_of_select hfiled hadmits.placed,
    ← UInt64.ofNat_add, UInt64.le_iff_toNat_le, UInt64.toNat_ofNat_of_lt' hfits] at hbudget
  have hafter : ownedTotal c'.graph c'.leases c'.openBindingLeases admission.owner kind d ≤
      ownedTotal (run events).graph (run events).leases (run events).openBindingLeases
        admission.owner kind d + kindTotal (run events).graph admission.allocation.claims kind d := by
    cases hopened with
    | retry => exact Nat.le_add_right _ _
    | enter howner hexpires hfresh hclaims hagreed hadmitted =>
      rw [← resolved_grant hfiled hadmits.placed hclaims]
      exact ownedTotal_enters _ _ hfresh admission.owner kind d
  rw [quantityGet_ownerUsage hwell, UInt64.le_iff_toNat_le,
    UInt64.toNat_ofNat_of_lt' (hafter.trans_lt hfits)]
  exact hafter.trans hbudget

/-- The quota holds after admission, plain or with backfill, when the capacity of
every class fits in a word; what is charged is exactly what is granted. -/
theorem quota_after_admission (events : List Event)
    (hcapacity : ∀ kind d, totalCapacity (run events).graph kind d < 2 ^ 64)
    (quarantine : List NodeId) (policy : AdmissionPolicy) (exclusions : RequestExclusions)
    (queue : List Queued) (now : UInt64) (admission : Admission)
    (hgranted : Admit.admitWithPolicy (run events).graph (run events).occupancy quarantine policy queue
        (run events).leases (run events).openBindingLeases = some admission ∨
      Admit.admitBackfillWithPolicy (run events).graph (run events).occupancy quarantine exclusions
        policy queue ⟨now, (run events).leases, (run events).openBindingLeases⟩ = some admission)
    (id : LeaseId) (parent : Option LeaseId) (expiresAt deadline : UInt64) (priority : UInt32)
    (effects : List Effect) (next : Cluster)
    (hopen : apply (.openLease id admission.owner admission.allocation parent expiresAt deadline
      priority) (run events) = .ok effects next) :
    (∀ (kind : ResourceClass) (ceiling : Quantity), policy.ownerCeiling[kind]? = some ceiling →
      ∀ d, quantityGet (((ownerUsage next.graph next.leases next.openBindingLeases)[
        admission.owner]?.getD ∅)[kind]?.getD ∅) d ≤ quantityGet ceiling d) ∧
    ∀ kind d, chargeTotal admission.request.needs kind d =
      kindTotal (run events).graph admission.allocation.claims kind d := by
  have hadmits : ∃ avoided queued, Admits (run events).graph (run events).occupancy avoided policy
      (ownerUsage (run events).graph (run events).leases (run events).openBindingLeases) queued
      admission := by
    rcases hgranted with hplain | hbackfill
    · obtain ⟨queued, -, hadmits⟩ := explainFrom_admits hplain
      exact ⟨_, queued, hadmits⟩
    · let b : Backfill := ⟨(run events).graph, (run events).occupancy, quarantine, exclusions, policy,
        ownerUsage (run events).graph (run events).leases (run events).openBindingLeases,
        ⟨now, (run events).leases, (run events).openBindingLeases⟩⟩
      rw [← admitBackfillWithPolicyExplained_admission] at hbackfill
      obtain ⟨_, queued, _, -, hexplained⟩ :=
        @Backfill.explainFrom_explained admission b _ _ _ (Prod.ext hbackfill rfl)
      exact ⟨_, queued, hexplained.starts.admits⟩
  obtain ⟨avoided, queued, hadmits⟩ := hadmits
  obtain ⟨c', hstep, rfl⟩ := apply_ok_iff.mp ⟨effects, hopen⟩
  have hwell := (wellFormed_step (wellFormed_run events) hstep).leases
  refine ⟨fun kind ceiling hceiling d => ?_, fun kind d => ?_⟩
  · exact usage_within_ceiling hcapacity hadmits (opened_of_step hstep) hwell hceiling d
  · rw [hadmits.request]
    exact (charge_of_select (filed_run events) hadmits.placed kind d).symm

end Bound
theorem totalCapacity_le (graph : Graph) (kind : ResourceClass) (d : CapacityDimension) :
    totalCapacity graph kind d ≤
      ((OrdMap.vals graph.nodes).map fun node => (quantityGet node.capacity d).toNat).sum :=
  List.Sublist.sum_le_sum (List.filter_sublist.map _) fun _ _ => Nat.zero_le _

theorem mixed_capacity (kind : ResourceClass) (d : CapacityDimension) :
    totalCapacity (run Sample.mixedHost).graph kind d < 2 ^ 64 := by
  have hnodes : OrdMap.vals (run Sample.mixedHost).graph.nodes =
      [⟨1, .machine, ∅, ∅⟩, ⟨2, .gpu, ∅, qty .count 2⟩, ⟨3, .memory, ∅, qty .bytes 4096⟩] := by
    decide +kernel
  refine (totalCapacity_le _ kind d).trans_lt ?_
  simp only [hnodes, List.map_cons, List.map_nil, quantityGet_empty, quantityGet_qty]
  split <;> split <;> decide

/-- One unit of a gpu for each owner. -/
def Sample.oneGpu : AdmissionPolicy :=
  { AdmissionPolicy.default with ownerCeiling := (∅ : ClassUsage).insert .gpu (qty .count 1) }

theorem one_gpu_quota_holds : ∃ admission effects next,
    Admit.admitBackfillWithPolicy (run Sample.mixedHost).graph (run Sample.mixedHost).occupancy [] ∅
      Sample.oneGpu [Sample.asks 1 1 ⟨.gpu, qty .count 1, []⟩]
      ⟨0, (run Sample.mixedHost).leases, (run Sample.mixedHost).openBindingLeases⟩ = some admission ∧
    apply (.openLease 1 1 admission.allocation none 10 50 0) (run Sample.mixedHost) =
      .ok effects next ∧
    quantityGet (((ownerUsage next.graph next.leases next.openBindingLeases)[(1 : OwnerId)]?.getD
      ∅)[ResourceClass.gpu]?.getD ∅) .count ≤ 1 := by
  have hgranted : (Admit.admitBackfillWithPolicy (run Sample.mixedHost).graph
      (run Sample.mixedHost).occupancy [] ∅ Sample.oneGpu
      [Sample.asks 1 1 ⟨.gpu, qty .count 1, []⟩]
      ⟨0, (run Sample.mixedHost).leases, (run Sample.mixedHost).openBindingLeases⟩).any
      fun admission => admission.owner = 1 && (run Sample.mixedHost).accepts
        (.openLease 1 1 admission.allocation none 10 50 0) := by
    simp only [Admit.admitBackfillWithPolicy, orderQueueWithPolicy, orderQueue, Sample.oneGpu,
      AdmissionPolicy.default, Bool.not_false, if_true, List.mergeSort_singleton]
    decide +kernel
  simp only [Option.any_eq_true, Bool.and_eq_true, decide_eq_true_eq] at hgranted
  obtain ⟨admission, hadmission, howner, haccepts⟩ := hgranted
  obtain ⟨effects, next, happly⟩ : ∃ effects next, apply (.openLease 1 1 admission.allocation none
      10 50 0) (run Sample.mixedHost) = .ok effects next := by
    obtain ⟨c', hstep⟩ := accepts_iff.mp haccepts
    obtain ⟨effects, happly⟩ := apply_ok_iff.mpr ⟨c', hstep, rfl⟩
    exact ⟨effects, _, happly⟩
  refine ⟨admission, effects, next, hadmission, happly, ?_⟩
  rw [← howner] at happly
  obtain ⟨hquota, -⟩ := quota_after_admission Sample.mixedHost mixed_capacity [] Sample.oneGpu ∅ _ 0
    admission (.inr hadmission) 1 none 10 50 0 effects next happly
  have hceiling := hquota .gpu (qty .count 1) (by decide +kernel) .count
  rw [howner] at hceiling
  exact hceiling

end Cluster
end Archon.Kernel
