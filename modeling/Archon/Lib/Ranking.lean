import Mathlib

/-! Sorting by a rank in a linear order. Where the ranks of the entries differ the sorted
list does not depend on the order the entries were stored in, and the first entry that
is chosen from it has the least rank of all that could be. -/
namespace Ranking

variable {α β : Type} [LinearOrder β] {rank : α → β} {entries : List α}

/-- The entries in ascending order of rank. -/
def byRank (rank : α → β) (entries : List α) : List α :=
  entries.mergeSort fun left right => decide (rank left ≤ rank right)

theorem byRank_perm : (byRank rank entries).Perm entries := List.mergeSort_perm _ _

theorem pairwise_byRank : (byRank rank entries).Pairwise fun left right => rank left ≤ rank right := by
  have htrans : ∀ a b c, decide (rank a ≤ rank b) → decide (rank b ≤ rank c) →
      decide (rank a ≤ rank c) := by
    intro a b c hab hbc
    rw [decide_eq_true_eq] at hab hbc ⊢
    exact le_trans hab hbc
  have htotal : ∀ a b, (decide (rank a ≤ rank b) || decide (rank b ≤ rank a)) = true := by
    intro a b
    rw [Bool.or_eq_true, decide_eq_true_eq, decide_eq_true_eq]
    exact le_total (rank a) (rank b)
  simpa [byRank] using List.pairwise_mergeSort htrans htotal entries

/-- Storage order does not matter where the ranks differ. -/
theorem byRank_perm_eq {stored : List α} (hperm : entries.Perm stored)
    (hdistinct : ∀ left ∈ entries, ∀ right ∈ entries, rank left = rank right → left = right) :
    byRank rank entries = byRank rank stored := by
  have hsorted : (byRank rank entries).Perm (byRank rank stored) :=
    (byRank_perm.trans hperm).trans byRank_perm.symm
  refine List.Perm.eq_of_pairwise ?_ pairwise_byRank pairwise_byRank hsorted
  intro left right hleft hright hle hge
  have hstored : right ∈ entries := hperm.mem_iff.mpr (byRank_perm.mem_iff.mp hright)
  exact hdistinct left (byRank_perm.mem_iff.mp hleft) right hstored (le_antisymm hle hge)

theorem first_le {chosen : α → Prop} {before after : List α} {first other : α}
    (hsorted : (before ++ first :: after).Pairwise fun left right => rank left ≤ rank right)
    (hbefore : ∀ entry ∈ before, ¬chosen entry) (hmem : other ∈ before ++ first :: after)
    (hchosen : chosen other) : rank first ≤ rank other := by
  rcases List.mem_append.mp hmem with hearlier | hlater
  · exact absurd hchosen (hbefore other hearlier)
  · rcases List.mem_cons.mp hlater with rfl | hafter
    · exact le_rfl
    · exact List.rel_of_pairwise_cons (List.pairwise_append.mp hsorted).2.1 hafter

end Ranking
