import Archon.Kernel.Graph

/-! Occupancy: what the live leases hold on each node. The additions of the
source are unchecked, so the exact totals below are natural numbers, and the
computed amounts are those totals modulo the word size. -/
namespace Archon.Kernel

structure Occupancy where
  used : OrdMap NodeId Quantity

namespace Occupancy

def usedOn (self : Occupancy) (node : NodeId) : Quantity := self.used[node]?.getD ∅

def remaining (self : Occupancy) (graph : Graph) (node : NodeId) : Except Error Quantity := do
  let found ← okOr (graph.node node) (.unknownNode node)
  return quantitySaturatingSub found.capacity (self.used[node]?.getD ∅)

def canCover (self : Occupancy) (graph : Graph) (claim : Claim) : Except Error Bool := do
  let remaining ← self.remaining graph claim.node
  return quantityLe claim.quantity remaining

def firstExceeding (graph : Graph) : List (NodeId × Quantity) → Except Error (Option NodeId)
  | [] => .ok none
  | (node, used) :: rest => do
    let found ← okOr (graph.node node) (.unknownNode node)
    if quantityLe used found.capacity then firstExceeding graph rest else return some node

/-- The first used node whose occupancy exceeds the capacity in `graph`. -/
def exceedsCapacity (self : Occupancy) (graph : Graph) : Except Error (Option NodeId) :=
  firstExceeding graph self.used.toList

end Occupancy

def LeaseState.isLive : LeaseState → Bool
  | .reserved | .preparing | .active => true
  | _ => false

def leaseOccupies (lease : Lease) (openBindings : Bool) : Bool :=
  lease.state.isLive || openBindings

def resolveClaim (graph : Graph) (claim : Claim) : Except Error Claim := do
  let node ← okOr (graph.node claim.node) (.unknownNode claim.node)
  let quantity := if claim.quantity.isEmpty then node.capacity else claim.quantity
  let _ ← graph.claimBindingForQuantity claim.node quantity
  return ⟨claim.node, quantity⟩

def covers (parent child : List Claim) : Bool :=
  child.all fun childClaim => parent.any fun parentClaim =>
    parentClaim.node = childClaim.node && quantityLe childClaim.quantity parentClaim.quantity

def claimsByNode (claims : List Claim) : OrdMap NodeId Quantity :=
  claims.foldl (fun out claim =>
    OrdMap.upsert out claim.node ∅ fun entry => quantityMax entry claim.quantity) ∅

def addClaims (used : OrdMap NodeId Quantity) (lease : Lease) : OrdMap NodeId Quantity :=
  (claimsByNode lease.allocation.claims).toList.foldl (fun used (node, quantity) =>
    OrdMap.upsert used node ∅ fun entry => quantityAddAssign entry quantity) used

/-- Independent root trees hold disjoint units, so their claims sum. -/
def occupancyFromLeases (leases : List Lease) (openBindingLeases except : List LeaseId) :
    Occupancy :=
  let occupying := leases.filter fun lease =>
    lease.id ∉ except && leaseOccupies lease (lease.id ∈ openBindingLeases)
  let roots := (occupying.filter fun lease =>
    lease.parent.all fun parent => occupying.all fun other => other.id ≠ parent).map Lease.id
  ⟨occupying.foldl (fun used lease => if lease.id ∈ roots then addClaims used lease else used) ∅⟩

/-- Occupancy of the live direct children of `parent` other than `except`. -/
def subtreeUsed (leases : List Lease) (openBindingLeases : List LeaseId)
    (parent except : LeaseId) : Occupancy :=
  ⟨leases.foldl (fun used lease =>
    if lease.id = except ∨ lease.parent ≠ some parent then used
    else if ¬leaseOccupies lease (lease.id ∈ openBindingLeases) then used
    else addClaims used lease) ∅⟩

def claimFits (capacity used claim : Quantity) : Bool :=
  claim.toList.all fun (dimension, amount) =>
    amount ≤ saturatingSub (quantityGet capacity dimension) (quantityGet used dimension)

/-! Exact amounts. -/

/-- Exactly what a list of claims takes on one node and dimension. -/
def claimOn (claims : List Claim) (node : NodeId) (dimension : CapacityDimension) : Nat :=
  ((claims.filter fun claim => claim.node = node).map
    fun claim => (quantityGet claim.quantity dimension).toNat).sum

/-- Claims name each node once. -/
def DistinctNodes (claims : List Claim) : Prop := (claims.map Claim.node).Nodup

theorem claimOn_of_not_mem {claims : List Claim} {n : NodeId} (d : CapacityDimension)
    (h : n ∉ claims.map Claim.node) : claimOn claims n d = 0 := by
  have hnone : claims.filter (fun claim => claim.node = n) = [] := by
    apply List.filter_eq_nil_iff.mpr
    intro claim hc
    simp only [decide_eq_true_eq]
    exact fun he => h (List.mem_map.mpr ⟨claim, hc, he⟩)
  simp [claimOn, hnone]

theorem claimOn_cons (claim : Claim) (claims : List Claim) (n : NodeId) (d : CapacityDimension) :
    claimOn (claim :: claims) n d =
      (if claim.node = n then (quantityGet claim.quantity d).toNat else 0) + claimOn claims n d := by
  unfold claimOn
  rw [List.filter_cons]
  split <;> simp_all

theorem claimOn_of_mem {claims : List Claim} (hnodup : DistinctNodes claims) {claim : Claim}
    (h : claim ∈ claims) (d : CapacityDimension) :
    claimOn claims claim.node d = (quantityGet claim.quantity d).toNat := by
  induction claims with
  | nil => simp at h
  | cons head rest ih =>
    obtain ⟨hhead, hrest⟩ := List.nodup_cons.mp hnodup
    rw [claimOn_cons]
    rcases List.mem_cons.mp h with rfl | h
    · rw [if_pos rfl, claimOn_of_not_mem d hhead, Nat.add_zero]
    · have hne : head.node ≠ claim.node :=
        fun he => hhead (he ▸ List.mem_map_of_mem h)
      rw [if_neg hne, ih hrest h, Nat.zero_add]

theorem toNat_claimsByNode {claims : List Claim} (hnodup : DistinctNodes claims) (n : NodeId)
    (d : CapacityDimension) :
    (quantityGet ((claimsByNode claims)[n]?.getD ∅) d).toNat = claimOn claims n d := by
  have hfold := @List.foldl_hom _ _ _ (fun used : OrdMap NodeId Quantity => quantityGet (used[n]?.getD ∅) d)
    (fun out (claim : Claim) =>
      OrdMap.upsert out claim.node ∅ fun entry => quantityMax entry claim.quantity)
    (fun acc claim => if claim.node = n then max acc (quantityGet claim.quantity d) else acc)
    claims ∅ (by
      intro used claim
      rw [OrdMap.get_upsert]
      by_cases hn : claim.node = n
      · subst hn
        simp [quantityGet_max]
      · simp [hn])
  have hmax : ∀ (claims : List Claim) (acc : UInt64), DistinctNodes claims →
      (acc = 0 ∨ n ∉ claims.map Claim.node) →
      (claims.foldl (fun acc claim =>
        if claim.node = n then max acc (quantityGet claim.quantity d) else acc) acc).toNat =
        acc.toNat + claimOn claims n d := by
    intro claims
    induction claims with
    | nil => intro acc _ _; simp [claimOn]
    | cons claim claims ih =>
      intro acc hnodup hacc
      obtain ⟨hhead, hrest⟩ := List.nodup_cons.mp hnodup
      rw [List.foldl_cons, claimOn_cons]
      by_cases hn : claim.node = n
      · subst hn
        have hzero : acc = 0 := hacc.resolve_right (by simp)
        subst hzero
        rw [if_pos rfl, if_pos rfl, ih _ hrest (.inr hhead), toNat_max]
        simp
      · rw [if_neg hn, if_neg hn, ih _ hrest ?_, Nat.zero_add]
        refine hacc.imp_right fun h => ?_
        simp only [List.map_cons, List.mem_cons, not_or] at h
        exact h.2
  have hstart := hmax claims 0 hnodup (.inl rfl)
  unfold claimsByNode
  rw [← hfold]
  simpa using hstart

theorem quantityGet_addClaims (used : OrdMap NodeId Quantity) (lease : Lease) (n : NodeId)
    (d : CapacityDimension) :
    quantityGet ((addClaims used lease)[n]?.getD ∅) d =
      quantityGet (used[n]?.getD ∅) d +
        quantityGet ((claimsByNode lease.allocation.claims)[n]?.getD ∅) d := by
  have hfold := @List.foldl_hom _ _ _ (fun used : OrdMap NodeId Quantity => quantityGet (used[n]?.getD ∅) d)
    (fun used (p : NodeId × Quantity) =>
      OrdMap.upsert used p.1 ∅ fun entry => quantityAddAssign entry p.2)
    (fun acc p => if p.1 = n then acc + quantityGet p.2 d else acc)
    ((claimsByNode lease.allocation.claims).toList) used (by
      intro used p
      rw [OrdMap.get_upsert]
      by_cases hn : p.1 = n
      · subst hn
        simp [quantityGet_addAssign]
      · simp [hn])
  unfold addClaims
  rw [← hfold, OrdMap.foldl_toList_single _ n fun acc quantity => acc + quantityGet quantity d]
  cases (claimsByNode lease.allocation.claims)[n]? <;> simp

/-- What a lease takes on one node and dimension. -/
def Lease.claimOn (lease : Lease) (node : NodeId) (dimension : CapacityDimension) : Nat :=
  Kernel.claimOn lease.allocation.claims node dimension

/-- Adding up selected leases yields their exact total modulo the word size. -/
theorem quantityGet_foldl_addClaims (select : Lease → Bool) (leases : List Lease)
    (hnodup : ∀ lease ∈ leases, DistinctNodes lease.allocation.claims) (n : NodeId)
    (d : CapacityDimension) :
    quantityGet ((leases.foldl (fun used lease =>
      if select lease then addClaims used lease else used) ∅)[n]?.getD ∅) d =
      UInt64.ofNat ((leases.filter select).map fun lease => lease.claimOn n d).sum := by
  have hgen : ∀ (used : OrdMap NodeId Quantity), quantityGet ((leases.foldl (fun used lease =>
      if select lease then addClaims used lease else used) used)[n]?.getD ∅) d =
      quantityGet (used[n]?.getD ∅) d +
        UInt64.ofNat ((leases.filter select).map fun lease => lease.claimOn n d).sum := by
    induction leases with
    | nil => intro used; simp
    | cons lease leases ih =>
      intro used
      have hrest := ih fun l hl => hnodup l (List.mem_cons_of_mem _ hl)
      have hlease := toNat_claimsByNode (hnodup lease List.mem_cons_self) n d
      have hword : quantityGet ((claimsByNode lease.allocation.claims)[n]?.getD ∅) d =
          UInt64.ofNat (lease.claimOn n d) := by
        rw [Lease.claimOn, ← hlease, UInt64.ofNat_toNat]
      rw [List.foldl_cons, hrest, List.filter_cons]
      by_cases hs : select lease = true
      · rw [if_pos hs, if_pos hs, quantityGet_addClaims, hword, List.map_cons, List.sum_cons,
          UInt64.ofNat_add, UInt64.add_assoc]
      · rw [if_neg hs, if_neg hs]
  simpa using hgen ∅

theorem claimFits_iff (capacity used claim : Quantity) :
    claimFits capacity used claim = true ↔
      ∀ d, quantityGet claim d ≤ saturatingSub (quantityGet capacity d) (quantityGet used d) := by
  simp only [claimFits, List.all_eq_true, decide_eq_true_eq, Prod.forall,
    Std.ExtTreeMap.mem_toList_iff_getElem?_eq_some]
  constructor
  · intro h d
    cases hd : claim[d]? with
    | none => simp [quantityGet, hd]
    | some amount => simpa [quantityGet, hd] using h d amount hd
  · intro h d amount hd
    simpa [quantityGet, hd] using h d

theorem Occupancy.canCover_ok {self : Occupancy} {graph : Graph} {claim : Claim} :
    self.canCover graph claim = .ok true ↔
      ∃ found, graph.node claim.node = some found ∧
        ∀ d, quantityGet claim.quantity d ≤
          saturatingSub (quantityGet found.capacity d) (quantityGet (self.usedOn claim.node) d) := by
  simp only [canCover, remaining, Fallible.check_bind_ok, Fallible.check_pure_ok, Fallible.okOr_ok]
  constructor
  · rintro ⟨_, ⟨found, hfound, rfl⟩, hle⟩
    refine ⟨found, hfound, fun d => ?_⟩
    rw [← quantityGet_saturatingSub]
    exact (quantityLe_iff _ _).mp hle d
  · rintro ⟨found, hfound, hfits⟩
    refine ⟨_, ⟨found, hfound, rfl⟩, (quantityLe_iff _ _).mpr fun d => ?_⟩
    rw [quantityGet_saturatingSub]
    exact hfits d

theorem Occupancy.exceedsCapacity_none {self : Occupancy} {graph : Graph}
    (h : self.exceedsCapacity graph = .ok none) {n : NodeId} {used : Quantity}
    (hused : self.used[n]? = some used) :
    ∃ found, graph.node n = some found ∧
      ∀ d, quantityGet used d ≤ quantityGet found.capacity d := by
  have hall : ∀ entries, firstExceeding graph entries = .ok none → (n, used) ∈ entries →
      ∃ found, graph.node n = some found ∧
        ∀ d, quantityGet used d ≤ quantityGet found.capacity d := by
    intro entries
    induction entries with
    | nil => intro _ hm; simp at hm
    | cons entry entries ih =>
      obtain ⟨node, amount⟩ := entry
      intro hok hm
      simp only [firstExceeding, Fallible.check_bind_ok, Fallible.okOr_ok, Fallible.check_ite_ok,
        Fallible.check_pure_ok, reduceCtorEq, and_false, or_false] at hok
      obtain ⟨found, hfound, hle, hrest⟩ := hok
      rcases List.mem_cons.mp hm with heq | hm
      · cases heq
        exact ⟨found, hfound, (quantityLe_iff _ _).mp hle⟩
      · exact ih hrest hm
  exact hall _ h (Std.ExtTreeMap.mem_toList_iff_getElem?_eq_some.mpr hused)

/-! Resolved claims. -/

theorem Graph.selectClaimBindings_ok {graph : Graph} {node : NodeId}
    {entries : List (CapacityDimension × UInt64)} {selected : Option ClaimBinding}
    {required : ClaimBinding}
    (h : entries.foldlM (graph.selectClaimBinding node) selected = .ok (some required)) :
    selected = some required ∨
      ∃ entry ∈ entries, entry.2 ≠ 0 ∧ graph.claimBinding node entry.1 = some required := by
  induction entries generalizing selected with
  | nil =>
    simp only [List.foldlM_nil, Fallible.check_pure_ok] at h
    exact .inl h
  | cons entry entries ih =>
    rw [List.foldlM_cons, Fallible.check_bind_ok] at h
    obtain ⟨next, hnext, hrest⟩ := h
    rcases ih hrest with rfl | ⟨found, hmem, hfound⟩
    · unfold selectClaimBinding at hnext
      split at hnext
      · exact .inl (by simpa using hnext)
      · rename_i hpositive
        simp only [Fallible.check_bind_ok, Fallible.okOr_ok] at hnext
        obtain ⟨binding, hbinding, hnext⟩ := hnext
        cases selected with
        | none =>
          simp only [Fallible.check_pure_ok, Option.some.injEq] at hnext
          subst hnext
          exact .inr ⟨entry, List.mem_cons_self, hpositive, hbinding⟩
        | some existing =>
          simp only [Fallible.check_bind_ok, Fallible.check_pure_ok] at hnext
          obtain ⟨_, -, hsame⟩ := hnext
          exact .inl hsame
    · exact .inr ⟨found, List.mem_cons_of_mem _ hmem, hfound⟩

theorem Graph.claimBindingForQuantity_dimension {graph : Graph} {node : NodeId}
    {quantity : Quantity} {required : ClaimBinding}
    (h : graph.claimBindingForQuantity node quantity = .ok required) :
    ∃ d, quantityGet quantity d ≠ 0 ∧ graph.claimBinding node d = some required := by
  simp only [claimBindingForQuantity, Fallible.check_bind_ok, Fallible.okOr_ok] at h
  obtain ⟨_, _, selected, hselected, rfl⟩ := h
  rcases selectClaimBindings_ok hselected with hnone | ⟨⟨d, amount⟩, hmem, hpositive, hbinding⟩
  · cases hnone
  · have hentry := Std.ExtTreeMap.mem_toList_iff_getElem?_eq_some.mp hmem
    exact ⟨d, by simpa [quantityGet, hentry] using hpositive, hbinding⟩

theorem Graph.claimBindingForQuantity_positive {graph : Graph} {node : NodeId} {quantity : Quantity}
    {binding : ClaimBinding} (h : graph.claimBindingForQuantity node quantity = .ok binding) :
    ∃ d, quantityGet quantity d ≠ 0 := by
  obtain ⟨d, hpositive, -⟩ := claimBindingForQuantity_dimension h
  exact ⟨d, hpositive⟩

theorem isEmpty_false_of_quantityGet {quantity : Quantity} {d : CapacityDimension}
    (h : quantityGet quantity d ≠ 0) : quantity.isEmpty = false := by
  cases hempty : quantity.isEmpty with
  | false => rfl
  | true =>
    rw [Std.ExtTreeMap.isEmpty_iff] at hempty
    subst hempty
    simp at h

theorem resolveClaim_ok {graph : Graph} {claim resolved : Claim}
    (h : resolveClaim graph claim = .ok resolved) :
    resolved.node = claim.node ∧ (graph.node claim.node).isSome ∧
      resolved.quantity.isEmpty = false ∧
      (claim.quantity.isEmpty = false → resolved = claim) := by
  simp only [resolveClaim, Fallible.check_bind_ok, Fallible.okOr_ok, Fallible.check_pure_ok] at h
  obtain ⟨node, hnode, binding, hbinding, rfl⟩ := h
  obtain ⟨d, hd⟩ := Graph.claimBindingForQuantity_positive hbinding
  refine ⟨rfl, by simp [hnode], isEmpty_false_of_quantityGet hd, ?_⟩
  intro hempty
  simp [hempty]

end Archon.Kernel
