import Archon.Kernel.Run
import Archon.Node.Service

/-! Pinning. Discovery writes the number of a processor and of a memory node into its host
id, and the controller reads them back out of the claims of a lease. The memory numbers
come back; the processor numbers never do, since the call asks for a kind of leaf that the
match does not know. -/
namespace Archon.Node
open Archon.Kernel Fallible

/-! Host ids. -/

/-- The ids a normalized host topology is reported under. -/
inductive HostId where
  | numa (node : UInt32)
  | memory (node : UInt32)
  | cpu (node number : UInt32)

def HostId.text : HostId → String
  | .numa node => "numa/" ++ toString node.toNat
  | .memory node => "numa/" ++ toString node.toNat ++ "/memory"
  | .cpu node number => "numa/" ++ toString node.toNat ++ "/cpu/" ++ toString number.toNat

section Text
variable {text : String} {head tail : List Char}

theorem slash_not_digit (n : ℕ) : '/' ∉ Nat.toDigits 10 n := by
  intro hmem
  have hdigit := Nat.isDigit_of_mem_toDigits (by decide) (by decide) hmem
  exact absurd hdigit (by decide)

theorem rsplitOnce_eq (h : text.toList = head ++ '/' :: tail) (htail : '/' ∉ tail) :
    rsplitOnce text = some (String.ofList head, String.ofList tail) := by
  have hreversed : text.toList.reverse = tail.reverse ++ '/' :: head.reverse := by
    rw [h]
    simp
  have hclear : ∀ c ∈ tail.reverse, decide (c ≠ '/') = true := by
    intro c hc
    rw [decide_eq_true_eq]
    rintro rfl
    exact htail (List.mem_reverse.mp hc)
  unfold rsplitOnce
  rw [hreversed, if_pos (by simp), List.takeWhile_append_of_pos hclear,
    List.dropWhile_append_of_pos hclear]
  simp

theorem strippedOf_eq {start : String} (h : text.toList = start.toList ++ tail) :
    strippedOf start text = some (String.ofList tail) := by
  unfold strippedOf
  rw [h, if_pos (by simp), ← String.length_toList, List.drop_left]

theorem parseU32_toDigits (n : UInt32) : parseU32 (String.ofList (Nat.toDigits 10 n.toNat)) = some n := by
  have hdigits : ∀ c ∈ Nat.toDigits 10 n.toNat, c.isDigit := fun c hc =>
    Nat.isDigit_of_mem_toDigits (by decide) (by decide) hc
  have hvalue : (Nat.toDigits 10 n.toNat).foldl (fun total c => total * 10 + (c.toNat - 48)) 0 =
      n.toNat := by
    have hread := @Nat.ofDigitChars_ten_toDigits n.toNat
    have hzero : '0'.toNat = 48 := rfl
    rw [Nat.ofDigitChars_eq_foldl] at hread
    simpa only [Nat.mul_comm, hzero] using hread
  unfold parseU32 parseBelow
  dsimp only
  split
  · rename_i rest hplus
    rw [String.toList_ofList] at hplus
    exact absurd (hdigits '+' (hplus ▸ List.mem_cons_self)) (by decide)
  · rw [String.toList_ofList, hvalue, if_pos n.toNat_lt, if_pos, Option.map_some, UInt32.ofNat_toNat]
    simp only [ne_eq, Nat.toDigits_ne_nil, not_false_eq_true, decide_true, Bool.true_and,
      List.all_eq_true]
    exact hdigits

end Text

/-! What the controller reads back. -/

namespace NodeService

/-- The host id a node was registered with. -/
def hostIdOf (self : NodeService) (node : NodeId) : Option String :=
  (self.cluster.graph.node node).bind fun found => found.attrs[Discover.hostIdAttr]?

/-- What a host id says of a leaf of the kind. -/
def leafNumber (hostId leafKind : String) : Option UInt32 := do
  let (numa, leaf) ← rsplitOnce hostId
  let numa ← strippedOf "numa/" numa
  if leafKind = "cpu" then (strippedOf "cpu/" leaf).bind parseU32
  else if leafKind = "memory" && leaf = "memory" then parseU32 numa
  else none

theorem hostLeafNumber_eq (self : NodeService) (node : NodeId) (leafKind : String) :
    self.hostLeafNumber node leafKind = (self.hostIdOf node).bind (leafNumber · leafKind) := by
  unfold hostLeafNumber hostIdOf leafNumber
  cases self.cluster.graph.node node <;> rfl

/-- No host id has a leaf of the kind the call for a processor asks for. -/
theorem leafNumber_cpu (hostId : String) : leafNumber hostId "cpu/" = none := by
  unfold leafNumber
  cases rsplitOnce hostId with
  | none => rfl
  | some parts =>
    cases strippedOf "numa/" parts.1 <;> simp

theorem leafNumber_memory (id : HostId) {number : UInt32} :
    leafNumber id.text "memory" = some number ↔ id = .memory number := by
  cases id with
  | numa node =>
    have htext : (HostId.numa node).text.toList = "numa".toList ++ '/' :: Nat.toDigits 10 node.toNat := by
      simp [HostId.text]
    unfold leafNumber
    rw [rsplitOnce_eq htext (slash_not_digit _)]
    have hstripped : strippedOf "numa/" "numa" = none := by decide +kernel
    simp [hstripped]
  | memory node =>
    have htext : (HostId.memory node).text.toList =
        ("numa/".toList ++ Nat.toDigits 10 node.toNat) ++ '/' :: "memory".toList := by
      simp [HostId.text]
    unfold leafNumber
    rw [rsplitOnce_eq htext (by decide)]
    simp only [Option.bind_eq_bind, Option.bind_some]
    rw [strippedOf_eq (String.toList_ofList ..), Option.bind_some]
    simp [parseU32_toDigits]
  | cpu node leaf =>
    have htext : (HostId.cpu node leaf).text.toList =
        ("numa/".toList ++ Nat.toDigits 10 node.toNat ++ "/cpu".toList) ++
          '/' :: Nat.toDigits 10 leaf.toNat := by
      simp [HostId.text]
    have hleaf : String.ofList (Nat.toDigits 10 leaf.toNat) ≠ "memory" := by
      intro heq
      have hlist := congrArg String.toList heq
      rw [String.toList_ofList] at hlist
      have hmem : 'm' ∈ Nat.toDigits 10 leaf.toNat := by
        rw [hlist]
        decide
      exact absurd (Nat.isDigit_of_mem_toDigits (by decide) (by decide) hmem) (by decide)
    unfold leafNumber
    rw [rsplitOnce_eq htext (slash_not_digit _)]
    cases strippedOf "numa/" (String.ofList
        ("numa/".toList ++ Nat.toDigits 10 node.toNat ++ "/cpu".toList)) <;>
      simp [hleaf]

/-! The limits of a member. -/

/-- The claims of a lease on nodes of one kind of a machine. -/
def claimedOn (self : NodeService) (record : Lease) (machine : NodeId) (kind : ResourceClass) :
    List Claim :=
  record.allocation.claims.filter fun claim =>
    self.cluster.graph.machineOf claim.node = some machine &&
      (self.cluster.graph.node claim.node).map Node.kind = some kind

theorem claimsOn_filter (self : NodeService) (record : Lease) (machine : NodeId)
    (kind : ResourceClass) :
    ((self.claimsOn record machine).filter fun entry => entry.2 = some kind).map Prod.fst =
      self.claimedOn record machine kind := by
  unfold claimsOn claimedOn
  rw [List.filter_map, List.map_map, List.filter_filter]
  simp [Function.comp_def, Bool.and_comm]

/-- The amount the claims take of one dimension. -/
def claimedTotal (claims : List Claim) (d : CapacityDimension) : ℕ :=
  (claims.map fun claim => (quantityGet claim.quantity d).toNat).sum

theorem toNat_claimSum (claims : List Claim) (d : CapacityDimension) :
    (claimSum claims d).toNat = claimedTotal claims d % 2 ^ 64 := by
  have hstart : ∀ start : UInt64,
      (claims.foldl (fun total claim => total + quantityGet claim.quantity d) start).toNat =
        (start.toNat + claimedTotal claims d) % 2 ^ 64 := by
    induction claims with
    | nil => exact fun start => (Nat.mod_eq_of_lt start.toNat_lt).symm
    | cons claim rest ih =>
      intro start
      rw [List.foldl_cons, ih, UInt64.toNat_add, Nat.mod_add_mod, Nat.add_assoc]
      rfl
  refine (hstart 0).trans ?_
  rw [UInt64.toNat_zero, Nat.zero_add]

/-- The limits are those of the claims: the amounts, and exactly the numbers that the host ids
of the claimed processors and memory nodes spell. -/
structure PinsClaims (s : NodeService) (record : Lease) (machine : NodeId) (limits : LeaseLimits) :
    Prop where
  cpuCount : limits.cpuCount.toNat = claimedTotal (s.claimedOn record machine .cpu) .count
  memoryBytes : limits.memoryBytes.toNat = claimedTotal (s.claimedOn record machine .memory) .bytes
  cpusAscend : limits.placement.cpus.Pairwise (· < ·)
  cpus : ∀ number, number ∈ limits.placement.cpus ↔ ∃ claim ∈ s.claimedOn record machine .cpu,
    ∃ node, s.hostIdOf claim.node = some (HostId.cpu node number).text
  memsAscend : limits.placement.mems.Pairwise (· < ·)
  mems : ∀ number, number ∈ limits.placement.mems ↔
    ∃ claim ∈ s.claimedOn record machine .memory,
      s.hostIdOf claim.node = some (HostId.memory number).text

/-- The amounts fit in a word, and no processor is claimed that its host id numbers. -/
structure PinsNoCpu (s : NodeService) (record : Lease) (machine : NodeId) : Prop where
  cpuCount : claimedTotal (s.claimedOn record machine .cpu) .count < 2 ^ 64
  memoryBytes : claimedTotal (s.claimedOn record machine .memory) .bytes < 2 ^ 64
  unnumbered : ∀ claim ∈ s.claimedOn record machine .cpu, ∀ node number,
    s.hostIdOf claim.node ≠ some (HostId.cpu node number).text

section Limits
variable {self : NodeService} {lease : LeaseId} {record : Lease} {machine : NodeId}
  {limits : LeaseLimits}

theorem sortAsc_ascends (numbers : List UInt32) : (sortAsc numbers.dedup).Pairwise (· < ·) := by
  have hsorted : (sortAsc numbers.dedup).Pairwise (· ≤ ·) := by
    unfold sortAsc
    simp only [Std.isLE_compare]
    exact List.pairwise_insertionSort _ _
  have hdistinct : (sortAsc numbers.dedup).Nodup := nodup_sortAsc.mpr numbers.nodup_dedup
  exact hsorted.imp₂ (fun _ _ hle hne => UInt32.lt_of_le_of_ne hle hne) hdistinct

theorem leaseLimitsOnMachine_eq (hrecord : self.cluster.leases[lease]? = some record) :
    self.leaseLimitsOnMachine lease machine = .ok {
      cpuCount := claimSum (self.claimedOn record machine .cpu) .count
      memoryBytes := claimSum (self.claimedOn record machine .memory) .bytes
      placement := ⟨[], sortAsc ((self.claimedOn record machine .memory).filterMap fun claim =>
        self.hostLeafNumber claim.node "memory").dedup⟩ } := by
  have hcpus : ∀ claims : List Claim,
      claims.filterMap (fun claim => self.hostLeafNumber claim.node "cpu/") = [] := by
    intro claims
    refine List.filterMap_eq_nil_iff.mpr fun claim _ => ?_
    rw [hostLeafNumber_eq]
    cases self.hostIdOf claim.node <;> simp [leafNumber_cpu]
  have hempty : sortAsc ([] : List UInt32).dedup = [] := rfl
  unfold leaseLimitsOnMachine
  rw [hrecord]
  simp only [claimsOn_filter, hcpus, hempty]
  rfl

theorem mem_memoryNumbers {claims : List Claim} (hids : ∀ claim ∈ claims, ∀ text,
      self.hostIdOf claim.node = some text → ∃ id : HostId, text = id.text) (number : UInt32) :
    number ∈ sortAsc (claims.filterMap fun claim => self.hostLeafNumber claim.node "memory").dedup ↔
      ∃ claim ∈ claims, self.hostIdOf claim.node = some (HostId.memory number).text := by
  rw [mem_sortAsc, List.mem_dedup, List.mem_filterMap]
  refine exists_congr fun claim => and_congr_right fun hclaim => ?_
  rw [hostLeafNumber_eq]
  cases hid : self.hostIdOf claim.node with
  | none => simp
  | some text =>
    obtain ⟨id, rfl⟩ := hids claim hclaim text hid
    rw [Option.bind_some, leafNumber_memory, Option.some.injEq]
    constructor
    · rintro rfl
      rfl
    · intro htext
      rw [← leafNumber_memory, htext, leafNumber_memory]

/-- Where the host ids are those of a topology, the limits are those of the claims exactly if
the amounts fit in a word and no claimed processor has a number. -/
theorem limits_pin_claims_iff (hrecord : self.cluster.leases[lease]? = some record)
    (hids : ∀ claim ∈ record.allocation.claims, self.cluster.graph.machineOf claim.node = some machine →
      ∀ text, self.hostIdOf claim.node = some text → ∃ id : HostId, text = id.text) :
    (∃ limits, self.leaseLimitsOnMachine lease machine = .ok limits ∧
      PinsClaims self record machine limits) ↔ PinsNoCpu self record machine := by
  constructor
  · rintro ⟨limits, hok, hpins⟩
    rw [leaseLimitsOnMachine_eq hrecord] at hok
    cases hok
    refine ⟨hpins.cpuCount ▸ UInt64.toNat_lt _, hpins.memoryBytes ▸ UInt64.toNat_lt _, ?_⟩
    intro claim hclaim node number hid
    exact List.not_mem_nil ((hpins.cpus number).mpr ⟨claim, hclaim, node, hid⟩)
  · intro hfits
    have hsum : ∀ {claims : List Claim} {d : CapacityDimension}, claimedTotal claims d < 2 ^ 64 →
        (claimSum claims d).toNat = claimedTotal claims d := fun hfit => by
      rw [toNat_claimSum, Nat.mod_eq_of_lt hfit]
    refine ⟨_, leaseLimitsOnMachine_eq hrecord, hsum hfits.cpuCount, hsum hfits.memoryBytes, .nil,
      fun number => ?_, sortAsc_ascends _, mem_memoryNumbers fun claim hclaim => ?_⟩
    · refine iff_of_false List.not_mem_nil ?_
      rintro ⟨claim, hclaim, node, hid⟩
      exact hfits.unnumbered claim hclaim node number hid
    · obtain ⟨hclaimed, hon⟩ := List.mem_filter.mp hclaim
      simp only [Bool.and_eq_true, decide_eq_true_eq] at hon
      exact hids claim hclaimed hon.1

end Limits

/-! A machine with processor 7 and the memory of its NUMA node 0. -/

namespace Sample

def numaHost : List Event := [
  .apply (.applyResourceFacts
    [⟨1, .machine, ∅, ∅⟩,
      ⟨2, .cpu, (∅ : Attrs).insert Discover.hostIdAttr "numa/0/cpu/7", qty .count 1⟩,
      ⟨3, .memory, (∅ : Attrs).insert Discover.hostIdAttr "numa/0/memory", qty .bytes 4096⟩]
    [⟨1, 2, .contains, ∅⟩, ⟨1, 3, .contains, ∅⟩]
    [⟨2, .count, some ⟨.enforce, .exclusive⟩⟩, ⟨3, .bytes, some ⟨.enforce, .exclusive⟩⟩])]

/-- The controller after the lease of these claims is opened. -/
def claiming (claims : List Claim) : NodeService :=
  { NodeService.new with
    cluster := Cluster.run (numaHost ++ [
      .apply (.openLease 1 1 ⟨claims, 1, ⟨"", []⟩⟩ none 100 50 0)]) }

end Sample

/-- Processor 7 is claimed, and the member is pinned to no processor. -/
theorem claimed_cpu_not_pinned : ∃ record,
    (Sample.claiming [⟨2, qty .count 1⟩]).cluster.leases[(1 : LeaseId)]? = some record ∧
    ¬∃ limits, (Sample.claiming [⟨2, qty .count 1⟩]).leaseLimitsOnMachine 1 1 = .ok limits ∧
      PinsClaims (Sample.claiming [⟨2, qty .count 1⟩]) record 1 limits := by
  obtain ⟨record, hrecord⟩ := Option.isSome_iff_exists.mp
    (show ((Sample.claiming [⟨2, qty .count 1⟩]).cluster.leases[(1 : LeaseId)]?).isSome by
      decide +kernel)
  refine ⟨record, hrecord, ?_⟩
  rintro ⟨limits, hok, hpins⟩
  rw [leaseLimitsOnMachine_eq hrecord] at hok
  cases hok
  have hclaimed : ((Sample.claiming [⟨2, qty .count 1⟩]).cluster.leases[(1 : LeaseId)]?).any
      fun record => (⟨2, qty .count 1⟩ : Claim) ∈
        (Sample.claiming [⟨2, qty .count 1⟩]).claimedOn record 1 .cpu := by
    decide +kernel
  have hid : (Sample.claiming [⟨2, qty .count 1⟩]).hostIdOf 2 = some (HostId.cpu 0 7).text := by
    decide +kernel
  rw [hrecord, Option.any_some, decide_eq_true_eq] at hclaimed
  exact List.not_mem_nil ((hpins.cpus 7).mpr ⟨_, hclaimed, 0, hid⟩)

/-- A claim of the memory alone is pinned to its NUMA node. -/
theorem claimed_memory_pinned : ∃ record limits,
    (Sample.claiming [⟨3, qty .bytes 4096⟩]).cluster.leases[(1 : LeaseId)]? = some record ∧
    (Sample.claiming [⟨3, qty .bytes 4096⟩]).leaseLimitsOnMachine 1 1 = .ok limits ∧
      PinsClaims (Sample.claiming [⟨3, qty .bytes 4096⟩]) record 1 limits := by
  obtain ⟨record, hrecord⟩ := Option.isSome_iff_exists.mp
    (show ((Sample.claiming [⟨3, qty .bytes 4096⟩]).cluster.leases[(1 : LeaseId)]?).isSome by
      decide +kernel)
  have hclaims : ((Sample.claiming [⟨3, qty .bytes 4096⟩]).cluster.leases[(1 : LeaseId)]?).all
      fun record => record.allocation.claims = [⟨3, qty .bytes 4096⟩] := by
    decide +kernel
  have hid : (Sample.claiming [⟨3, qty .bytes 4096⟩]).hostIdOf 3 = some (HostId.memory 0).text := by
    decide +kernel
  rw [hrecord, Option.all_some, decide_eq_true_eq] at hclaims
  have hcpus : (Sample.claiming [⟨3, qty .bytes 4096⟩]).claimedOn record 1 .cpu = [] := by
    rw [claimedOn, hclaims]
    decide +kernel
  have hmemories : claimedTotal ((Sample.claiming [⟨3, qty .bytes 4096⟩]).claimedOn record 1 .memory)
      .bytes < 2 ^ 64 := by
    rw [claimedOn, hclaims, claimedTotal, List.filter_cons]
    split
    · simpa using UInt64.toNat_lt _
    · simp
  obtain ⟨limits, hok, hpins⟩ := (@limits_pin_claims_iff _ 1 record 1 hrecord (by
    intro claim hclaim _ text htext
    rw [hclaims, List.mem_singleton] at hclaim
    rw [hclaim, hid, Option.some.injEq] at htext
    exact ⟨_, htext.symm⟩)).mpr ⟨by rw [hcpus]; decide, hmemories, by rw [hcpus]; simp⟩
  exact ⟨record, limits, hrecord, hok, hpins⟩

end NodeService
end Archon.Node
