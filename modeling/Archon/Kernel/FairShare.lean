import Archon.Kernel.Admit

/-! Fair share. The score of an owner is computed in 128 bits and rounded down; the
share itself is a rational number. No intermediate product leaves the 128 bits, the
score is the floor of the scaled share, and so a lower score is a lower share. -/
namespace Archon.Kernel
open Admit

/-! The share itself. -/

/-- What a usage or a capacity holds of one class and dimension. -/
def amountOf (amounts : ClassUsage) (kind : ResourceClass) (dimension : CapacityDimension) : ℕ :=
  (quantityGet (amounts[kind]?.getD ∅) dimension).toNat

/-- The classes and dimensions that have capacity to share. -/
def shareable (capacity : ClassUsage) : Finset (ResourceClass × CapacityDimension) :=
  ((OrdMap.keySet capacity).biUnion fun kind =>
    (OrdMap.keySet (capacity[kind]?.getD ∅)).image fun dimension => (kind, dimension)).filter
      fun entry => 0 < amountOf capacity entry.1 entry.2

/-- A weight of zero counts as one. -/
def effectiveWeight (weight : UInt32) : ℕ := max weight.toNat 1

/-- What is used of one class and dimension, over its capacity and the weight. -/
def exactShare (usage capacity : ClassUsage) (weight : UInt32)
    (entry : ResourceClass × CapacityDimension) : ℚ≥0 :=
  amountOf usage entry.1 entry.2 / (amountOf capacity entry.1 entry.2 * effectiveWeight weight : ℕ)

/-- The largest share of all that has capacity. -/
def exactDominantShare (usage capacity : ClassUsage) (weight : UInt32) : ℚ≥0 :=
  (shareable capacity).sup (exactShare usage capacity weight)

/-! The computation with every operation checked. -/

/-- A 128-bit product, or none where it overflows. -/
def mulU128 (a b : ℕ) : Option ℕ := if a * b < 2 ^ 128 then some (a * b) else none

/-- A quotient, or none where the divisor is zero. -/
def divU128 (a b : ℕ) : Option ℕ := if b = 0 then none else some (a / b)

def checkedShare (used available : UInt64) (weight : ℕ) : Option ℕ := do
  let denominator ← mulU128 available.toNat weight
  let scaled ← mulU128 used.toNat 1000000000000000000
  divU128 scaled denominator

/-- `weightedDominantShare`, stopping at the first operation that would panic. -/
def checkedDominantShare (usage capacity : ClassUsage) (weight : UInt32) : Option ℕ :=
  let weight := max weight.toNat 1
  usage.toList.foldlM (fun dominant (kind, quantities) =>
    match capacity[kind]? with
    | none => some dominant
    | some total => quantities.toList.foldlM (fun dominant (dimension, used) =>
        let available := quantityGet total dimension
        if available = 0 then some dominant
        else (checkedShare used available weight).map (max dominant)) dominant) 0

section Loop
variable {α : Type} {items : List α}

theorem foldl_le_iff {raise : ℕ → α → ℕ} {bounded : α → Prop} {n : ℕ}
    (hstep : ∀ acc item, item ∈ items → (raise acc item ≤ n ↔ acc ≤ n ∧ bounded item)) (start : ℕ) :
    items.foldl raise start ≤ n ↔ start ≤ n ∧ ∀ item ∈ items, bounded item := by
  induction items generalizing start with
  | nil => simp
  | cons item items ih =>
    rw [List.foldl_cons, ih fun acc other hmem => hstep acc other (List.mem_cons_of_mem _ hmem),
      hstep start item List.mem_cons_self, List.forall_mem_cons, and_assoc]

theorem foldlM_eq_some {β : Type} {checked : β → α → Option β} {raise : β → α → β}
    (hstep : ∀ acc item, item ∈ items → checked acc item = some (raise acc item)) (start : β) :
    items.foldlM checked start = some (items.foldl raise start) := by
  induction items generalizing start with
  | nil => rfl
  | cons item items ih =>
    rw [List.foldlM_cons, List.foldl_cons, hstep start item List.mem_cons_self]
    exact ih (fun acc other hmem => hstep acc other (List.mem_cons_of_mem _ hmem)) _

end Loop

section FairShare
variable {usage capacity : ClassUsage} {weight : UInt32}

theorem mem_shareable {kind : ResourceClass} {d : CapacityDimension} :
    (kind, d) ∈ shareable capacity ↔ 0 < amountOf capacity kind d := by
  simp only [shareable, Finset.mem_filter, Finset.mem_biUnion, Finset.mem_image, Prod.mk.injEq,
    and_iff_right_iff_imp]
  intro hpositive
  cases htotal : capacity[kind]? with
  | none => simp [amountOf, htotal] at hpositive
  | some total =>
    refine ⟨kind, OrdMap.mem_keySet.mpr ⟨total, htotal⟩, d, OrdMap.mem_keySet.mpr ?_, rfl, rfl⟩
    cases hamount : total[d]? with
    | none => simp [amountOf, htotal, quantityGet, hamount] at hpositive
    | some amount => exact ⟨amount, by rw [htotal, Option.getD_some, hamount]⟩

theorem effectiveWeight_pos : 0 < effectiveWeight weight := by
  unfold effectiveWeight
  omega

theorem checkedShare_eq {used available : UInt64} (havailable : available ≠ 0) :
    checkedShare used available (effectiveWeight weight) =
      some (used.toNat * 1000000000000000000 / (available.toNat * effectiveWeight weight)) := by
  have hused : used.toNat < 2 ^ 64 := used.toNat_lt
  have hcapacity : available.toNat < 2 ^ 64 := available.toNat_lt
  have hweight : effectiveWeight weight ≤ 2 ^ 32 := by
    have hword : weight.toNat < 2 ^ 32 := weight.toNat_lt
    unfold effectiveWeight
    omega
  have hpositive : 0 < available.toNat :=
    Nat.pos_of_ne_zero fun hzero => havailable (UInt64.toNat_inj.mp hzero)
  have hproduct : available.toNat * effectiveWeight weight < 2 ^ 128 :=
    calc available.toNat * effectiveWeight weight
        ≤ 2 ^ 64 * 2 ^ 32 := Nat.mul_le_mul hcapacity.le hweight
      _ < 2 ^ 128 := by norm_num
  have hscaled : used.toNat * 1000000000000000000 < 2 ^ 128 := by omega
  have hdenominator : available.toNat * effectiveWeight weight ≠ 0 :=
    (Nat.mul_pos hpositive effectiveWeight_pos).ne'
  unfold checkedShare mulU128 divU128
  rw [if_pos hproduct, if_pos hscaled]
  exact if_neg hdenominator

/-- No product overflows and no divisor is zero. -/
theorem checkedDominantShare_eq (usage capacity : ClassUsage) (weight : UInt32) :
    checkedDominantShare usage capacity weight = some (weightedDominantShare usage capacity weight) := by
  refine foldlM_eq_some (fun dominant entry _ => ?_) 0
  obtain ⟨kind, quantities⟩ := entry
  dsimp only
  cases capacity[kind]? with
  | none => rfl
  | some total =>
    refine foldlM_eq_some (fun dominant entry _ => ?_) dominant
    obtain ⟨d, used⟩ := entry
    by_cases havailable : quantityGet total d = 0
    · simp only [havailable, if_true]
    · have hshare := @checkedShare_eq weight used _ havailable
      unfold effectiveWeight at hshare
      simp only [havailable, if_false, hshare, Option.map_some]

theorem weightedDominantShare_le_iff {n : ℕ} :
    weightedDominantShare usage capacity weight ≤ n ↔ ∀ entry ∈ shareable capacity,
      amountOf usage entry.1 entry.2 * 1000000000000000000 /
        (amountOf capacity entry.1 entry.2 * effectiveWeight weight) ≤ n := by
  -- each entry of the usage bounds the share of its own class and dimension
  have hloop : weightedDominantShare usage capacity weight ≤ n ↔ 0 ≤ n ∧
      ∀ entry ∈ usage.toList, ∀ total, capacity[entry.1]? = some total →
        ∀ used ∈ entry.2.toList, quantityGet total used.1 ≠ 0 →
          used.2.toNat * 1000000000000000000 /
            ((quantityGet total used.1).toNat * effectiveWeight weight) ≤ n := by
    refine foldl_le_iff (fun dominant entry _ => ?_) 0
    obtain ⟨kind, quantities⟩ := entry
    dsimp only
    cases capacity[kind]? with
    | none => simp
    | some total =>
      simp only [Option.some.injEq, forall_eq']
      refine foldl_le_iff (fun dominant entry _ => ?_) dominant
      obtain ⟨d, used⟩ := entry
      by_cases havailable : quantityGet total d = 0
      · simp [havailable]
      · simp [havailable, effectiveWeight]
  rw [hloop]
  constructor
  · rintro ⟨-, hbounded⟩ ⟨kind, d⟩ hshareable
    have hpositive := mem_shareable.mp hshareable
    dsimp only
    cases husage : usage[kind]? with
    | none => simp [amountOf, husage]
    | some quantities =>
      cases hused : quantities[d]? with
      | none => simp [amountOf, husage, quantityGet, hused]
      | some used =>
        cases htotal : capacity[kind]? with
        | none => simp [amountOf, htotal] at hpositive
        | some total =>
          have hentry := hbounded (kind, quantities)
            (Std.ExtTreeMap.mem_toList_iff_getElem?_eq_some.mpr husage) total htotal (d, used)
            (Std.ExtTreeMap.mem_toList_iff_getElem?_eq_some.mpr hused)
          have hcapacity : quantityGet total d ≠ 0 := by
            intro hzero
            simp [amountOf, htotal, hzero] at hpositive
          simpa [amountOf, husage, htotal, quantityGet, hused] using hentry hcapacity
  · intro hbounded
    refine ⟨Nat.zero_le _, ?_⟩
    rintro ⟨kind, quantities⟩ hentry total htotal ⟨d, used⟩ hused hcapacity
    have husage := Std.ExtTreeMap.mem_toList_iff_getElem?_eq_some.mp hentry
    have hamount := Std.ExtTreeMap.mem_toList_iff_getElem?_eq_some.mp hused
    dsimp only at htotal hcapacity husage hamount ⊢
    have hpositive : 0 < amountOf capacity kind d := by
      rw [amountOf, htotal, Option.getD_some]
      exact Nat.pos_of_ne_zero fun hzero => hcapacity (UInt64.toNat_inj.mp hzero)
    have hshare := hbounded (kind, d) (mem_shareable.mpr hpositive)
    simpa [amountOf, husage, htotal, quantityGet, hamount] using hshare

theorem floor_exactShare (entry : ResourceClass × CapacityDimension) :
    ⌊1000000000000000000 * exactShare usage capacity weight entry⌋₊ =
      amountOf usage entry.1 entry.2 * 1000000000000000000 /
        (amountOf capacity entry.1 entry.2 * effectiveWeight weight) := by
  rw [exactShare, ← mul_div_assoc, ← Nat.floor_div_eq_div (K := ℚ≥0)]
  push_cast
  rw [mul_comm (1000000000000000000 : ℚ≥0)]

theorem weightedDominantShare_eq (usage capacity : ClassUsage) (weight : UInt32) :
    weightedDominantShare usage capacity weight =
      ⌊1000000000000000000 * exactDominantShare usage capacity weight⌋₊ := by
  have hfloor : ⌊1000000000000000000 * exactDominantShare usage capacity weight⌋₊ =
      (shareable capacity).sup fun entry =>
        ⌊1000000000000000000 * exactShare usage capacity weight entry⌋₊ := by
    refine Finset.apply_sup_eq_sup_comp_of_linearOrder
      (fun share : ℚ≥0 => ⌊1000000000000000000 * share⌋₊) ?_ ?_
    · intro low high hle
      exact Nat.floor_mono (mul_le_mul_right hle _)
    · simp
  refine eq_of_forall_ge_iff fun n => ?_
  rw [hfloor, Finset.sup_le_iff, weightedDominantShare_le_iff]
  simp only [floor_exactShare]

/-- The score of any usage under any weight is the floor of its exact share, computed
without a panic, and a lower score means a lower share. -/
theorem scores_keep_order (capacity : ClassUsage) :
    (∀ (usage : ClassUsage) (weight : Option UInt32),
      checkedDominantShare usage capacity (weight.getD 1) =
          some (weightedDominantShare usage capacity (weight.getD 1)) ∧
        weightedDominantShare usage capacity (weight.getD 1) =
          ⌊1000000000000000000 * exactDominantShare usage capacity (weight.getD 1)⌋₊) ∧
    ∀ (usageA usageB : ClassUsage) (weightA weightB : Option UInt32),
      weightedDominantShare usageA capacity (weightA.getD 1) <
          weightedDominantShare usageB capacity (weightB.getD 1) →
        exactDominantShare usageA capacity (weightA.getD 1) <
          exactDominantShare usageB capacity (weightB.getD 1) := by
  refine ⟨fun usage weight => ⟨checkedDominantShare_eq _ _ _, weightedDominantShare_eq _ _ _⟩, ?_⟩
  intro usageA usageB weightA weightB hlower
  by_contra hinverted
  have hscaled := mul_le_mul_right (not_lt.mp hinverted) (1000000000000000000 : ℚ≥0)
  have hscores := Nat.floor_mono hscaled
  rw [← weightedDominantShare_eq, ← weightedDominantShare_eq] at hscores
  omega

/-- One of four processors is a lower share than two of four. -/
theorem one_of_four_below_two :
    exactDominantShare ((∅ : ClassUsage).insert .cpu (qty .count 1))
        ((∅ : ClassUsage).insert .cpu (qty .count 4)) 1 <
      exactDominantShare ((∅ : ClassUsage).insert .cpu (qty .count 2))
        ((∅ : ClassUsage).insert .cpu (qty .count 4)) 1 :=
  (scores_keep_order _).2 _ _ none none (by decide +kernel)

end FairShare
end Archon.Kernel
