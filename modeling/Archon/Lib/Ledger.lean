import Mathlib

/-! Delegated holdings of shared resources. A holder draws on the capacity
directly when it is a root, and on the holding of its parent otherwise; a root
is a holder without a parent that holds. The ledger carries its laws as fields,
and the operations below are the changes that keep them. -/
namespace Holdings
variable {K : Type} [DecidableEq K]

/-- Holders whose parent, if any, does not hold. -/
def roots (parent : K → Option K) (held : Finset K) : Finset K :=
  held.filter fun k => ∀ p ∈ parent k, p ∉ held

/-- What the roots hold. -/
def rootTotal (parent : K → Option K) (weight : K → ℕ) (held : Finset K) : ℕ :=
  ∑ k ∈ roots parent held, weight k

/-- What the holders below `p` hold. -/
def childTotal (parent : K → Option K) (weight : K → ℕ) (held : Finset K) (p : K) : ℕ :=
  ∑ k ∈ held with parent k = some p, weight k

variable {parent : K → Option K} {weight : K → ℕ} {held : Finset K}

theorem mem_roots {k : K} : k ∈ roots parent held ↔ k ∈ held ∧ ∀ p ∈ parent k, p ∉ held := by
  simp [roots]

theorem childTotal_mono {held' : Finset K} (h : held' ⊆ held) (p : K) :
    childTotal parent weight held' p ≤ childTotal parent weight held p :=
  Finset.sum_le_sum_of_subset (Finset.filter_subset_filter _ h)

/-- When holders stop, the children of a stopped root take its place, and they
hold no more than it did. -/
theorem rootTotal_shrink {held' : Finset K} (hsub : held' ⊆ held)
    (hcontained : ∀ p, childTotal parent weight held p ≤ weight p)
    (hdelegated : ∀ k ∈ held', ∀ p, parent k = some p → p ∉ held' → parent p = none) :
    rootTotal parent weight held' ≤ rootTotal parent weight held := by
  let kept := (roots parent held).filter (· ∈ held')
  let lost := (roots parent held).filter (· ∉ held')
  let orphans := lost.biUnion fun p => held.filter fun k => parent k = some p
  have hcover : roots parent held' ⊆ kept ∪ orphans := by
    intro k hk
    obtain ⟨hheld, hroot⟩ := mem_roots.mp hk
    by_cases hold : k ∈ roots parent held
    · exact Finset.mem_union_left _ (Finset.mem_filter.mpr ⟨hold, hheld⟩)
    · -- its parent held before and has stopped since
      have hparent : ∃ p, parent k = some p ∧ p ∈ held := by
        by_contra hnone
        exact hold (mem_roots.mpr ⟨hsub hheld, fun p hp hin => hnone ⟨p, hp, hin⟩⟩)
      obtain ⟨p, hp, hin⟩ := hparent
      have hstopped := hroot p hp
      have hlost : p ∈ lost := by
        refine Finset.mem_filter.mpr ⟨mem_roots.mpr ⟨hin, ?_⟩, hstopped⟩
        simp [hdelegated k hheld p hp hstopped]
      refine Finset.mem_union_right _ (Finset.mem_biUnion.mpr ⟨p, hlost, ?_⟩)
      exact Finset.mem_filter.mpr ⟨hsub hheld, hp⟩
  have hdisjoint : Set.PairwiseDisjoint (lost : Set K)
      fun p => held.filter fun k => parent k = some p := by
    intro p _ q _ hne
    apply Finset.disjoint_filter.mpr
    intro k _ hp hq
    exact hne (Option.some.inj (hp.symm.trans hq))
  calc rootTotal parent weight held'
      ≤ ∑ k ∈ kept ∪ orphans, weight k := Finset.sum_le_sum_of_subset hcover
    _ ≤ ∑ k ∈ kept, weight k + ∑ k ∈ orphans, weight k := by
        rw [← Finset.sum_union_inter]
        exact Nat.le_add_right _ _
    _ = ∑ k ∈ kept, weight k + ∑ p ∈ lost, childTotal parent weight held p := by
        rw [Finset.sum_biUnion hdisjoint]
        rfl
    _ ≤ ∑ k ∈ kept, weight k + ∑ p ∈ lost, weight p :=
        Nat.add_le_add_left (Finset.sum_le_sum fun p _ => hcontained p) _
    _ = rootTotal parent weight held := Finset.sum_filter_add_sum_filter_not _ _ _

/-! A newcomer that no holder names as its parent. -/

section Newcomer
variable {k : K} {up : Option K} {amount : ℕ}

theorem childTotal_update (hfresh : k ∉ held) (p : K) :
    childTotal (Function.update parent k up) (Function.update weight k amount) (insert k held) p =
      (if up = some p then amount else 0) + childTotal parent weight held p := by
  have hsame : ∑ j ∈ held with Function.update parent k up j = some p,
      Function.update weight k amount j = childTotal parent weight held p := by
    have hne : ∀ j ∈ held, j ≠ k := fun j hj he => hfresh (he ▸ hj)
    refine Finset.sum_congr (Finset.filter_congr fun j hj => ?_) fun j hj => ?_
    · rw [Function.update_of_ne (hne j hj)]
    · rw [Function.update_of_ne (hne j (Finset.mem_filter.mp hj).1)]
  unfold childTotal
  rw [Finset.filter_insert, Function.update_self]
  split
  · rw [Finset.sum_insert (by simp [hfresh]), hsame, Function.update_self]
    rfl
  · rw [hsame, Nat.zero_add]
    rfl

theorem roots_update (hfresh : k ∉ held) (hunused : ∀ j ∈ held, parent j ≠ some k)
    (hself : up ≠ some k) :
    roots (Function.update parent k up) (insert k held) =
      if ∀ p ∈ up, p ∉ held then insert k (roots parent held) else roots parent held := by
  have hrest : held.filter (fun j => ∀ p ∈ Function.update parent k up j, p ∉ insert k held) =
      roots parent held := by
    apply Finset.filter_congr
    intro j hj
    have hne : j ≠ k := fun he => hfresh (he ▸ hj)
    rw [Function.update_of_ne hne]
    refine forall₂_congr fun p hp => ?_
    have hpk : p ≠ k := fun he => hunused j hj (he ▸ hp)
    simp [hpk]
  have hown : (∀ p ∈ up, p ∉ insert k held) ↔ ∀ p ∈ up, p ∉ held := by
    refine forall₂_congr fun p hp => ?_
    have hpk : p ≠ k := fun he => hself (he ▸ hp)
    simp [hpk]
  rw [roots, Finset.filter_insert, Function.update_self, hrest]
  simp only [hown]

theorem rootTotal_update (hfresh : k ∉ held) (hunused : ∀ j ∈ held, parent j ≠ some k)
    (hself : up ≠ some k) :
    rootTotal (Function.update parent k up) (Function.update weight k amount) (insert k held) =
      (if ∀ p ∈ up, p ∉ held then amount else 0) + rootTotal parent weight held := by
  have hout : k ∉ roots parent held := fun h => hfresh (mem_roots.mp h).1
  have hsame : ∑ j ∈ roots parent held, Function.update weight k amount j =
      rootTotal parent weight held := by
    refine Finset.sum_congr rfl fun j hj => ?_
    have hne : j ≠ k := fun he => hout (he ▸ hj)
    rw [Function.update_of_ne hne]
  rw [rootTotal, roots_update hfresh hunused hself]
  split
  · rw [Finset.sum_insert hout, hsame, Function.update_self]
  · rw [hsame, Nat.zero_add]

theorem rootTotal_update_outside (hfresh : k ∉ held) :
    rootTotal (Function.update parent k up) (Function.update weight k amount) held =
      rootTotal parent weight held := by
  have hne : ∀ j ∈ held, j ≠ k := fun j hj he => hfresh (he ▸ hj)
  have hroots : roots (Function.update parent k up) held = roots parent held := by
    refine Finset.filter_congr fun j hj => ?_
    rw [Function.update_of_ne (hne j hj)]
  rw [rootTotal, hroots]
  refine Finset.sum_congr rfl fun j hj => ?_
  rw [Function.update_of_ne (hne j (mem_roots.mp hj).1)]

end Newcomer
end Holdings

open Holdings in
/-- Holdings within a capacity, for every resource at once. -/
structure Ledger (K R : Type) [DecidableEq K] where
  parent : K → Option K
  weight : R → K → ℕ
  held : Finset K
  capacity : R → ℕ
  contained : ∀ r p, childTotal parent (weight r) held p ≤ weight r p
  delegated : ∀ k ∈ held, ∀ p, parent k = some p → p ∉ held → parent p = none
  within : ∀ r, rootTotal parent (weight r) held ≤ capacity r

namespace Ledger
open Holdings
variable {K R : Type} [DecidableEq K] (ledger : Ledger K R)

/-- Change the capacity to one that still covers the roots. -/
def resize (capacity : R → ℕ)
    (h : ∀ r, rootTotal ledger.parent (ledger.weight r) ledger.held ≤ capacity r) : Ledger K R :=
  { ledger with capacity, within := h }

/-- Stop some holders; only a parentless one may leave children behind. -/
def shrink (held : Finset K) (hsub : held ⊆ ledger.held)
    (h : ∀ k ∈ held, ∀ p, ledger.parent k = some p → p ∉ held → ledger.parent p = none) :
    Ledger K R :=
  { ledger with
    held
    contained := fun r p => (childTotal_mono hsub p).trans (ledger.contained r p)
    delegated := h
    within := fun r => (rootTotal_shrink hsub (ledger.contained r) h).trans (ledger.within r) }

/-- Admit a newcomer under a parent that holds, or under none, as far as what
it draws on has room. -/
def enter (k : K) (up : Option K) (amount : R → ℕ) (hfresh : k ∉ ledger.held)
    (hunused : ∀ j ∈ ledger.held, ledger.parent j ≠ some k) (hself : up ≠ some k)
    (hup : ∀ p ∈ up, p ∈ ledger.held)
    (hchild : ∀ p ∈ up, ∀ r,
      childTotal ledger.parent (ledger.weight r) ledger.held p + amount r ≤ ledger.weight r p)
    (hroot : up = none → ∀ r,
      rootTotal ledger.parent (ledger.weight r) ledger.held + amount r ≤ ledger.capacity r) :
    Ledger K R where
  parent := Function.update ledger.parent k up
  weight r := Function.update (ledger.weight r) k (amount r)
  held := insert k ledger.held
  capacity := ledger.capacity
  contained r p := by
    rw [childTotal_update hfresh]
    by_cases hp : p = k
    · subst hp
      have hnone : childTotal ledger.parent (ledger.weight r) ledger.held p = 0 := by
        apply Finset.sum_eq_zero
        intro j hj
        obtain ⟨hheld, hparent⟩ := Finset.mem_filter.mp hj
        exact absurd hparent (hunused j hheld)
      simp [hnone, hself]
    · rw [Function.update_of_ne hp]
      split
      · rename_i heq
        rw [Nat.add_comm]
        exact hchild p heq r
      · rw [Nat.zero_add]
        exact ledger.contained r p
  delegated j hj p hp hout := by
    have hpk : p ≠ k := by
      rintro rfl
      exact hout (Finset.mem_insert_self _ _)
    have hpout : p ∉ ledger.held := fun h => hout (Finset.mem_insert_of_mem h)
    rw [Function.update_of_ne hpk]
    rcases Finset.mem_insert.mp hj with rfl | hj
    · rw [Function.update_self] at hp
      exact absurd (hup p hp) hpout
    · have hjk : j ≠ k := fun he => hfresh (he ▸ hj)
      rw [Function.update_of_ne hjk] at hp
      exact ledger.delegated j hj p hp hpout
  within r := by
    rw [rootTotal_update hfresh hunused hself]
    split
    · rename_i hfree
      have hnone : up = none := by
        cases up with
        | none => rfl
        | some p => exact absurd (hup p rfl) (hfree p rfl)
      rw [Nat.add_comm]
      exact hroot hnone r
    · rw [Nat.zero_add]
      exact ledger.within r

end Ledger
