import Archon.Kernel.Types

/-! Quantities: amounts per capacity dimension. A missing dimension reads as
zero, and every operation is determined by what it reads at each dimension. -/
namespace Archon.Kernel

def saturatingSub (a b : UInt64) : UInt64 := if b ≤ a then a - b else 0

def saturatingAdd (a b : UInt64) : UInt64 :=
  if a.toNat + b.toNat < 2 ^ 64 then a + b else UInt64.ofNat (2 ^ 64 - 1)

def quantityGet (quantity : Quantity) (dimension : CapacityDimension) : UInt64 :=
  quantity[dimension]?.getD 0

def quantityLe (left right : Quantity) : Bool :=
  left.toList.all fun (dimension, amount) => amount ≤ quantityGet right dimension

def quantitySaturatingSub (left right : Quantity) : Quantity :=
  left.toList.foldl (fun out (dimension, amount) =>
    let remain := saturatingSub amount (quantityGet right dimension)
    if 0 < remain then out.insert dimension remain else out) ∅

def quantityMax (left right : Quantity) : Quantity :=
  right.toList.foldl (fun out (dimension, amount) =>
    OrdMap.upsert out dimension 0 fun entry => max entry amount) left

/-- Unchecked additions: an overflow wraps. -/
def quantityAddAssign (left right : Quantity) : Quantity :=
  right.toList.foldl (fun out (dimension, amount) =>
    OrdMap.upsert out dimension 0 fun entry => entry + amount) left


@[simp] theorem quantityGet_empty (d : CapacityDimension) : quantityGet ∅ d = 0 := by
  simp [quantityGet]

theorem quantityGet_insert (q : Quantity) (k d : CapacityDimension) (amount : UInt64) :
    quantityGet (q.insert k amount) d = if k = d then amount else quantityGet q d := by
  unfold quantityGet
  rw [OrdMap.get_insert]
  split <;> rfl

theorem quantityGet_upsert (q : Quantity) (k d : CapacityDimension) (f : UInt64 → UInt64) :
    quantityGet (OrdMap.upsert q k 0 f) d =
      if k = d then f (quantityGet q d) else quantityGet q d := by
  unfold quantityGet
  rw [OrdMap.get_upsert]
  split
  · rename_i h
    simp [h]
  · rfl

theorem quantityLe_iff (left right : Quantity) :
    quantityLe left right = true ↔ ∀ d, quantityGet left d ≤ quantityGet right d := by
  simp only [quantityLe, List.all_eq_true, decide_eq_true_eq, Prod.forall,
    Std.ExtTreeMap.mem_toList_iff_getElem?_eq_some]
  constructor
  · intro h d
    cases hd : left[d]? with
    | none => simp [quantityGet, hd]
    | some amount => simpa [quantityGet, hd] using h d amount hd
  · intro h d amount hd
    simpa [quantityGet, hd] using h d

theorem quantityGet_saturatingSub (left right : Quantity) (d : CapacityDimension) :
    quantityGet (quantitySaturatingSub left right) d =
      saturatingSub (quantityGet left d) (quantityGet right d) := by
  unfold quantitySaturatingSub
  have hfold := @List.foldl_hom _ _ _ (fun q : Quantity => quantityGet q d)
    (fun out (p : CapacityDimension × UInt64) =>
      let remain := saturatingSub p.2 (quantityGet right p.1)
      if 0 < remain then out.insert p.1 remain else out)
    (fun acc p => if p.1 = d then
      (if 0 < saturatingSub p.2 (quantityGet right d) then
        saturatingSub p.2 (quantityGet right d) else acc) else acc)
    left.toList ∅ (by
      rintro q ⟨k, amount⟩
      dsimp only
      by_cases hk : k = d
      · subst hk
        rw [if_pos rfl]
        split
        · rw [quantityGet_insert, if_pos rfl]
        · rfl
      · rw [if_neg hk]
        split
        · rw [quantityGet_insert, if_neg hk]
        · rfl)
  rw [← hfold, OrdMap.foldl_toList_single left d
    (fun acc amount => if 0 < saturatingSub amount (quantityGet right d) then
      saturatingSub amount (quantityGet right d) else acc)]
  cases hd : left[d]? with
  | none => simp [quantityGet, hd, saturatingSub]
  | some amount =>
    have hl : quantityGet left d = amount := by simp [quantityGet, hd]
    rw [hl]
    simp only [Option.map_some, Option.getD_some, quantityGet_empty]
    split
    · rfl
    · rename_i hzero
      exact (UInt64.le_zero_iff.mp (UInt64.not_lt.mp hzero)).symm

/-- A fold of entry updates reads at each dimension the update of what was
there by what the right side holds. -/
theorem quantityGet_foldl_upsert (op : UInt64 → UInt64 → UInt64) (hop : ∀ a, op a 0 = a)
    (left right : Quantity) (d : CapacityDimension) :
    quantityGet (right.toList.foldl
      (fun out p => OrdMap.upsert out p.1 0 fun entry => op entry p.2) left) d =
      op (quantityGet left d) (quantityGet right d) := by
  have hfold := @List.foldl_hom _ _ _ (fun q : Quantity => quantityGet q d)
    (fun out (p : CapacityDimension × UInt64) =>
      OrdMap.upsert out p.1 0 fun entry => op entry p.2)
    (fun acc p => if p.1 = d then op acc p.2 else acc)
    right.toList left (by
      intro q p
      rw [quantityGet_upsert])
  rw [← hfold, OrdMap.foldl_toList_single right d op]
  cases hd : right[d]? <;> simp [quantityGet, hd, hop]

theorem quantityGet_addAssign (left right : Quantity) (d : CapacityDimension) :
    quantityGet (quantityAddAssign left right) d = quantityGet left d + quantityGet right d :=
  quantityGet_foldl_upsert (· + ·) (by simp) left right d

theorem quantityGet_max (left right : Quantity) (d : CapacityDimension) :
    quantityGet (quantityMax left right) d = max (quantityGet left d) (quantityGet right d) :=
  quantityGet_foldl_upsert max (fun a => by
    change (if a ≤ 0 then 0 else a) = a
    split
    · rename_i h
      exact (UInt64.le_zero_iff.mp h).symm
    · rfl) left right d

theorem toNat_max (a b : UInt64) : (max a b).toNat = max a.toNat b.toNat := by
  change (if a ≤ b then b else a).toNat = max a.toNat b.toNat
  split
  · rename_i h
    rw [UInt64.le_iff_toNat_le] at h
    omega
  · rename_i h
    rw [UInt64.le_iff_toNat_le] at h
    omega

theorem toNat_saturatingSub (a b : UInt64) : (saturatingSub a b).toNat = a.toNat - b.toNat := by
  unfold saturatingSub
  split
  · rename_i h
    exact UInt64.toNat_sub_of_le _ _ h
  · rename_i h
    have : a.toNat < b.toNat := by simpa [UInt64.le_iff_toNat_le] using h
    simp
    omega

/-- What fits beside an exact total under `capacity` keeps their sum within it. -/
theorem add_le_of_le_saturatingSub {total : ℕ} {capacity amount : UInt64}
    (htotal : total ≤ capacity.toNat) (h : amount ≤ saturatingSub capacity (UInt64.ofNat total)) :
    total + amount.toNat ≤ capacity.toNat := by
  have hexact : (UInt64.ofNat total).toNat = total :=
    UInt64.toNat_ofNat_of_lt' (htotal.trans_lt (UInt64.toNat_lt _))
  rw [UInt64.le_iff_toNat_le, toNat_saturatingSub, hexact] at h
  omega

end Archon.Kernel
