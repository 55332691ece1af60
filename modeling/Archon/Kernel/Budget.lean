import Archon.Kernel.Quota
import Archon.Lib.Counts

/-! Budget arithmetic. The additions of the usage and of the projected usage are unchecked.
Each loop is stated a second time with every addition checked: it fails exactly where an
exact total leaves a word, and there the answer of the source can be wrong. -/
namespace Archon.Kernel
open Admit

/-! The loops with every addition checked. -/

/-- A 64-bit sum, or none where it overflows. -/
def checkedAdd (a b : UInt64) : Option UInt64 :=
  if a.toNat + b.toNat < 2 ^ 64 then some (a + b) else none

def checkedAddAssign (left right : Quantity) : Option Quantity :=
  right.toList.foldlM (fun out (entry : CapacityDimension × UInt64) =>
    OrdMap.tryUpsert out entry.1 0 (checkedAdd · entry.2)) left

namespace Admit

def checkedChargeLease (graph : Graph) (entry : ClassUsage) (lease : Lease) : Option ClassUsage :=
  (claimsByNode lease.allocation.claims).toList.foldlM (fun entry (claimed : NodeId × Quantity) =>
    OrdMap.tryUpsert entry (chargedKind graph claimed.1) ∅ (checkedAddAssign · claimed.2)) entry

/-- `ownerUsage`, or none where an addition overflows. -/
def checkedOwnerUsage (graph : Graph) (leases : OrdMap LeaseId Lease) (openBindings : List LeaseId) :
    Option (OrdMap OwnerId ClassUsage) :=
  (chargedRoots leases openBindings).foldlM (fun usage lease =>
    OrdMap.tryUpsert usage lease.owner ∅ (checkedChargeLease graph · lease)) ∅

/-- The usage as it would be with a request charged. -/
def checkedProjection (usage : ClassUsage) (needs : List Need) : Option ClassUsage :=
  needs.foldlM (fun projected need =>
    OrdMap.tryUpsert projected need.kind ∅ (checkedAddAssign · (needCharge need))) usage

/-- `withinBudget`, or none where an addition overflows. -/
def checkedWithinBudget (usage : ClassUsage) (request : Request) (ownerCeiling : ClassUsage) :
    Option Bool :=
  if ownerCeiling.isEmpty then
    some true
  else
    (checkedProjection usage request.needs).map fun projected =>
      ownerCeiling.toList.all fun (kind, ceiling) => quantityLe (projected[kind]?.getD ∅) ceiling

end Admit

/-! What the loops count. -/

section Counting
variable {graph : Graph}

theorem counts_entry : Counts (2 ^ 64) (fun (quantity : Quantity) d => (quantityGet quantity d).toNat)
    (fun (entry : CapacityDimension × UInt64) d => if entry.1 = d then entry.2.toNat else 0)
    (fun _ => True) (fun quantity entry => OrdMap.tryUpsert quantity entry.1 0 (checkedAdd · entry.2))
    (fun quantity entry => OrdMap.upsert quantity entry.1 0 (· + entry.2)) where
  below quantity d := UInt64.toNat_lt _
  fits quantity entry _ hfits := by
    have hentry : (quantity[entry.1]?.getD 0).toNat + entry.2.toNat < 2 ^ 64 := by
      simpa [quantityGet] using hfits entry.1
    constructor
    · rw [OrdMap.tryUpsert, checkedAdd, if_pos hentry, Option.map_some]
      congr 1
      apply Std.ExtTreeMap.ext_getElem?
      intro k
      rw [OrdMap.get_upsert, OrdMap.get_upsert]
    · intro d
      rw [quantityGet_upsert]
      by_cases hd : entry.1 = d
      · subst hd
        rw [if_pos rfl, if_pos rfl, UInt64.toNat_add]
        exact Nat.mod_eq_of_lt hentry
      · rw [if_neg hd, if_neg hd, Nat.add_zero]
  overflows quantity entry d _ hreaches := by
    by_cases hd : entry.1 = d
    · subst hd
      rw [if_pos rfl, quantityGet] at hreaches
      rw [OrdMap.tryUpsert, checkedAdd, if_neg (not_lt.mpr hreaches), Option.map_none]
    · rw [if_neg hd, Nat.add_zero] at hreaches
      exact absurd (UInt64.toNat_lt (quantityGet quantity d)) (not_lt.mpr hreaches)

theorem counts_addAssign : Counts (2 ^ 64)
    (fun (quantity : Quantity) d => (quantityGet quantity d).toNat)
    (fun (quantity : Quantity) d => (quantityGet quantity d).toNat) (fun _ => True)
    checkedAddAssign quantityAddAssign := by
  refine (counts_entry.foldlM.comap fun quantity : Quantity => quantity.toList).congr ?_ ?_
  · exact fun _ _ _ _ => trivial
  · intro quantity _ d
    rw [OrdMap.sum_toList quantity fun dimension amount =>
      if dimension = d then amount.toNat else 0]
    cases hd : quantity[d]? with
    | none =>
      rw [quantityGet, hd]
      refine Finset.sum_eq_zero fun k hk => ?_
      have hne : k ≠ d := by
        rintro rfl
        obtain ⟨v, hv⟩ := OrdMap.mem_keySet.mp hk
        cases hd.symm.trans hv
      cases quantity[k]? <;> simp [hne]
    | some amount =>
      rw [Finset.sum_eq_single d]
      · simp [quantityGet, hd]
      · intro k _ hne
        cases quantity[k]? <;> simp [hne]
      · exact fun hnone => absurd (OrdMap.mem_keySet.mpr ⟨amount, hd⟩) hnone

theorem counts_chargeLease : Counts (2 ^ 64)
    (fun (usage : ClassUsage) (i : ResourceClass × CapacityDimension) =>
      (quantityGet (usage[i.1]?.getD ∅) i.2).toNat)
    (fun lease i => kindTotal graph lease.allocation.claims i.1 i.2)
    (fun lease => DistinctNodes lease.allocation.claims) (checkedChargeLease graph)
    (chargeLease graph) := by
  refine (((counts_addAssign.comap fun claimed : NodeId × Quantity => claimed.2).upsert
    (fun claimed => chargedKind graph claimed.1) ∅).foldlM.comap
      fun lease : Lease => (claimsByNode lease.allocation.claims).toList).congr ?_ ?_
  · exact fun _ _ _ _ => trivial
  · intro lease hdistinct i
    exact sum_claimsByNode hdistinct

theorem counts_ownerUsage : Counts (2 ^ 64)
    (fun (usage : OrdMap OwnerId ClassUsage) (i : OwnerId × ResourceClass × CapacityDimension) =>
      (quantityGet ((usage[i.1]?.getD ∅)[i.2.1]?.getD ∅) i.2.2).toNat)
    (fun (charged : List Lease) i => (charged.map fun lease => if lease.owner = i.1 then
      kindTotal graph lease.allocation.claims i.2.1 i.2.2 else 0).sum)
    (fun charged => ∀ lease ∈ charged, DistinctNodes lease.allocation.claims)
    (fun usage charged => charged.foldlM (fun usage lease =>
      OrdMap.tryUpsert usage lease.owner ∅ (checkedChargeLease graph · lease)) usage)
    (fun usage charged => charged.foldl (fun usage lease =>
      OrdMap.upsert usage lease.owner ∅ (chargeLease graph · lease)) usage) :=
  (counts_chargeLease.upsert Lease.owner ∅).foldlM

theorem counts_projection : Counts (2 ^ 64)
    (fun (usage : ClassUsage) (i : ResourceClass × CapacityDimension) =>
      (quantityGet (usage[i.1]?.getD ∅) i.2).toNat)
    (fun needs i => chargeTotal needs i.1 i.2) (fun _ => True) checkedProjection
    (fun usage needs => needs.foldl (fun projected need =>
      OrdMap.upsert projected need.kind ∅ (quantityAddAssign · (needCharge need))) usage) := by
  refine (((counts_addAssign.comap needCharge).upsert Need.kind ∅).foldlM).congr ?_ ?_
  · exact fun _ _ _ _ => trivial
  · intro needs _ i
    rw [chargeTotal, sum_filter_eq]
    simp only [decide_eq_true_eq]

end Counting

/-! When the answer is exact. -/

namespace Cluster

/-- What the usage of the cluster is computed to be. -/
def usageOf (c : Cluster) (owner : OwnerId) : ClassUsage :=
  (ownerUsage c.graph c.leases c.openBindingLeases)[owner]?.getD ∅

/-- What the root leases of the owner hold, exactly. -/
def heldBy (c : Cluster) (owner : OwnerId) (kind : ResourceClass) (d : CapacityDimension) : ℕ :=
  ownedTotal c.graph c.leases c.openBindingLeases owner kind d

/-- No addition overflows, and a request is within budget where the exact sums are. -/
structure BudgetExact (c : Cluster) (owner : OwnerId) (request : Request) (ceilings : ClassUsage) :
    Prop where
  usage : (checkedOwnerUsage c.graph c.leases c.openBindingLeases).isSome
  charges : (checkedWithinBudget (c.usageOf owner) request ceilings).isSome
  answer : withinBudget (c.usageOf owner) request ceilings ↔
    ∀ kind ceiling, ceilings[kind]? = some ceiling → ∀ d,
      c.heldBy owner kind d + chargeTotal request.needs kind d ≤ (quantityGet ceiling d).toNat

/-- Every exact sum fits in a word. -/
structure BudgetFits (c : Cluster) (owner : OwnerId) (request : Request) : Prop where
  held : ∀ owner kind d, c.heldBy owner kind d < 2 ^ 64
  charged : ∀ kind d, c.heldBy owner kind d + chargeTotal request.needs kind d < 2 ^ 64

section Exact
variable {c : Cluster} {owner : OwnerId} {request : Request} {ceilings : ClassUsage}

theorem checkedOwnerUsage_isSome (h : LeasesWellFormed c.leases) :
    (checkedOwnerUsage c.graph c.leases c.openBindingLeases).isSome ↔
      ∀ owner kind d, c.heldBy owner kind d < 2 ^ 64 := by
  have hdistinct : ∀ lease ∈ chargedRoots c.leases c.openBindingLeases,
      DistinctNodes lease.allocation.claims := by
    intro lease hlease
    obtain ⟨id, hid⟩ := OrdMap.mem_vals.mp (List.mem_filter.mp hlease).1
    exact h.distinct hid
  refine (counts_ownerUsage.isSome_iff ∅ hdistinct).trans ?_
  simp only [Prod.forall, heldBy, ownedTotal, sum_filter_eq, decide_eq_true_eq]
  simp

theorem toNat_usageOf (h : LeasesWellFormed c.leases) {kind : ResourceClass} {d : CapacityDimension}
    (hfits : c.heldBy owner kind d < 2 ^ 64) :
    (quantityGet ((c.usageOf owner)[kind]?.getD ∅) d).toNat = c.heldBy owner kind d := by
  rw [usageOf, quantityGet_ownerUsage h]
  exact UInt64.toNat_ofNat_of_lt' hfits

theorem checkedWithinBudget_isSome (hceilings : ceilings.isEmpty = false) (usage : ClassUsage) :
    (checkedWithinBudget usage request ceilings).isSome ↔ ∀ kind d,
      (quantityGet (usage[kind]?.getD ∅) d).toNat + chargeTotal request.needs kind d < 2 ^ 64 := by
  rw [checkedWithinBudget, hceilings, if_neg Bool.false_ne_true, Option.isSome_map]
  refine (counts_projection.isSome_iff usage trivial).trans ?_
  simp only [Prod.forall]

/-- Where the sums fit, the comparison with the ceilings is that of the sums. -/
theorem withinBudget_iff (hceilings : ceilings.isEmpty = false) (usage : ClassUsage)
    (hfits : ∀ kind d,
      (quantityGet (usage[kind]?.getD ∅) d).toNat + chargeTotal request.needs kind d < 2 ^ 64) :
    withinBudget usage request ceilings ↔ ∀ kind ceiling, ceilings[kind]? = some ceiling → ∀ d,
      (quantityGet (usage[kind]?.getD ∅) d).toNat + chargeTotal request.needs kind d ≤
        (quantityGet ceiling d).toNat := by
  have hprojected := (counts_projection.fits usage request.needs trivial fun i => hfits i.1 i.2).2
  rw [withinBudget, hceilings, if_neg Bool.false_ne_true]
  simp only [List.all_eq_true, Prod.forall, Std.ExtTreeMap.mem_toList_iff_getElem?_eq_some,
    quantityLe_iff, UInt64.le_iff_toNat_le]
  refine forall_congr' fun kind => forall_congr' fun ceiling => forall_congr' fun _ =>
    forall_congr' fun d => ?_
  rw [hprojected (kind, d)]

end Exact

/-- In every reachable cluster the answer is exact if and only if every sum that is formed
fits in a word. -/
theorem budget_exact_iff (events : List Event) (owner : OwnerId) (request : Request)
    {ceilings : ClassUsage} (hceilings : ceilings.isEmpty = false) :
    BudgetExact (run events) owner request ceilings ↔ BudgetFits (run events) owner request := by
  have hleases := (wellFormed_run events).leases
  constructor
  · intro h
    have hheld := (checkedOwnerUsage_isSome hleases).mp h.usage
    refine ⟨hheld, fun kind d => ?_⟩
    rw [← toNat_usageOf hleases (hheld owner kind d)]
    exact (checkedWithinBudget_isSome hceilings _).mp h.charges kind d
  · intro h
    have hfits : ∀ kind d, (quantityGet (((run events).usageOf owner)[kind]?.getD ∅) d).toNat +
        chargeTotal request.needs kind d < 2 ^ 64 := by
      intro kind d
      rw [toNat_usageOf hleases (h.held owner kind d)]
      exact h.charged kind d
    refine ⟨(checkedOwnerUsage_isSome hleases).mpr h.held,
      (checkedWithinBudget_isSome hceilings _).mpr hfits, (withinBudget_iff hceilings _ hfits).trans ?_⟩
    simp only [toNat_usageOf hleases (h.held owner _ _)]

/-- Two memory needs whose bytes add up to a whole word. -/
def Sample.wrappingRequest : Request :=
  { Sample.mixedRequest with
    needs := [⟨.memory, qty .bytes 0x8000000000000000, []⟩,
      ⟨.memory, qty .bytes 0x8000000000000000, []⟩] }

/-- The sum wraps to zero, which is within a ceiling of one byte. -/
theorem wrapping_request_within_budget :
    withinBudget ((run []).usageOf 1) Sample.wrappingRequest
        ((∅ : ClassUsage).insert .memory (qty .bytes 1)) ∧
      ¬BudgetExact (run []) 1 Sample.wrappingRequest
        ((∅ : ClassUsage).insert .memory (qty .bytes 1)) := by
  have hwithin : withinBudget ((run []).usageOf 1) Sample.wrappingRequest
      ((∅ : ClassUsage).insert .memory (qty .bytes 1)) := by
    decide +kernel
  refine ⟨hwithin, fun h => ?_⟩
  have hle := h.answer.mp hwithin .memory (qty .bytes 1) (by simp) .bytes
  have htotal : chargeTotal Sample.wrappingRequest.needs .memory .bytes = 2 ^ 64 := by
    decide +kernel
  have hceiling : (quantityGet (qty .bytes 1) .bytes).toNat = 1 := by
    decide +kernel
  omega

/-- More units of the gpu, twice, and the memory in two parts. -/
def Sample.severalNeeds : Request :=
  { Sample.mixedRequest with
    needs := [⟨.gpu, qty .count 1, []⟩, ⟨.gpu, qty .count 2, []⟩,
      ⟨.memory, qty .bytes 4095, []⟩, ⟨.memory, qty .bytes 1, []⟩] }

def Sample.ceilings : ClassUsage :=
  ((∅ : ClassUsage).insert .gpu (qty .count 5)).insert .memory (qty .bytes 4096)

theorem chargeTotal_le (needs : List Need) (kind : ResourceClass) (d : CapacityDimension) :
    chargeTotal needs kind d ≤ (needs.map fun need => (quantityGet (needCharge need) d).toNat).sum :=
  List.Sublist.sum_le_sum (List.filter_sublist.map _) fun _ _ => Nat.zero_le _

theorem taken_totals (owner : OwnerId) (kind : ResourceClass) (d : CapacityDimension) :
    (run Sample.taken).heldBy owner kind d + chargeTotal Sample.severalNeeds.needs kind d < 2 ^ 64 := by
  have hnodes : OrdMap.vals (run Sample.taken).graph.nodes =
      [⟨1, .machine, ∅, ∅⟩, ⟨2, .gpu, ∅, qty .count 2⟩, ⟨3, .memory, ∅, qty .bytes 4096⟩] := by
    decide +kernel
  have hcharges : Sample.severalNeeds.needs.map needCharge =
      [qty .count 1, qty .count 2, qty .bytes 4095, qty .bytes 1] := by
    decide +kernel
  have hcapacity := totalCapacity_le (run Sample.taken).graph kind d
  have hcharged := chargeTotal_le Sample.severalNeeds.needs kind d
  rw [← Function.comp_def (fun charge => (quantityGet charge d).toNat) needCharge, ← List.map_map,
    hcharges] at hcharged
  simp only [hnodes, List.map_cons, List.map_nil, quantityGet_empty, quantityGet_qty] at hcapacity hcharged
  have hheld : (run Sample.taken).heldBy owner kind d ≤ totalCapacity (run Sample.taken).graph kind d := by
    have hle := @ownedTotal_add_le Sample.taken [] (by simp [DistinctNodes]) (by simp) owner kind d
    exact (Nat.le_add_right _ _).trans hle
  split_ifs at hcapacity hcharged <;> simp at hcapacity hcharged <;> omega

/-- The owner holds both units of the gpu, and is charged for four needs more. -/
theorem several_needs_charged_exactly :
    BudgetExact (run Sample.taken) 1 Sample.severalNeeds Sample.ceilings ∧
    (run Sample.taken).heldBy 1 .gpu .count = 2 ∧
    chargeTotal Sample.severalNeeds.needs .gpu .count = 3 ∧
    withinBudget ((run Sample.taken).usageOf 1) Sample.severalNeeds Sample.ceilings := by
  refine ⟨(budget_exact_iff Sample.taken 1 _ (by decide +kernel)).mpr ⟨fun owner kind d => ?_, taken_totals 1⟩,
    by decide +kernel, by decide +kernel, by decide +kernel⟩
  exact (Nat.le_add_right _ _).trans_lt (taken_totals owner kind d)

end Cluster
end Archon.Kernel
