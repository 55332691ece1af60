import Mathlib

/-! Lists of ranges of a linear order. Ranges that lie in order with a gap after each of
them are as few as any ranges over the same elements. -/
namespace Ranges

section Order
variable {α : Type} [LinearOrder α]

/-- The elements of some range of the list. -/
def covered (ranges : List (NonemptyInterval α)) : Set α := {a | ∃ range ∈ ranges, a ∈ range}

variable [SuccOrder α]

/-- In order, and at least one element is left out after each range but the last. -/
def Apart (ranges : List (NonemptyInterval α)) : Prop :=
  ranges.Pairwise fun range next => Order.succ range.snd < next.fst

variable {ranges others : List (NonemptyInterval α)} {range next : NonemptyInterval α}

theorem Apart.cases (h : Apart ranges) (hrange : range ∈ ranges) (hnext : next ∈ ranges) :
    range = next ∨ Order.succ range.snd < next.fst ∨ Order.succ next.snd < range.fst := by
  obtain ⟨i, hi, rfl⟩ := List.mem_iff_getElem.mp hrange
  obtain ⟨j, hj, rfl⟩ := List.mem_iff_getElem.mp hnext
  rcases lt_trichotomy i j with hlt | rfl | hgt
  · exact .inr (.inl (List.pairwise_iff_getElem.mp h i j hi hj hlt))
  · exact .inl rfl
  · exact .inr (.inr (List.pairwise_iff_getElem.mp h j i hj hi hgt))

theorem Apart.succ_notMem (h : Apart ranges) (hrange : range ∈ ranges) (hlast : ¬IsMax range.snd) :
    Order.succ range.snd ∉ covered ranges := by
  rintro ⟨other, hother, hmem⟩
  obtain ⟨hfst, hsnd⟩ := NonemptyInterval.mem_def.mp hmem
  have hlt : range.snd < Order.succ range.snd := Order.lt_succ_of_not_isMax hlast
  rcases h.cases hrange hother with rfl | hbefore | hafter
  · exact absurd hsnd hlt.not_ge
  · exact absurd hfst hbefore.not_ge
  · have hreaches : other.snd < range.snd :=
      (Order.le_succ _).trans_lt (hafter.trans_le range.fst_le_snd)
    exact absurd (hsnd.trans_lt hreaches) hlt.not_gt

theorem Apart.eq_of_mem (h : Apart ranges) {other : NonemptyInterval α}
    (hwithin : ∀ a ∈ other, a ∈ covered ranges) (hrange : range ∈ ranges) (hnext : next ∈ ranges)
    (hfirst : range.fst ∈ other) (hsecond : next.fst ∈ other) : range = next := by
  have hreach : ∀ {r n : NonemptyInterval α}, r ∈ ranges → r.fst ∈ other → n.fst ∈ other →
      ¬Order.succ r.snd < n.fst := by
    intro r n hr hfrom hto hgap
    have hlast : ¬IsMax r.snd := fun hmax => hmax.not_lt ((Order.le_succ _).trans_lt hgap)
    refine h.succ_notMem hr hlast (hwithin _ (NonemptyInterval.mem_def.mpr ⟨?_, ?_⟩))
    · exact (NonemptyInterval.mem_def.mp hfrom).1.trans (r.fst_le_snd.trans (Order.le_succ _))
    · exact hgap.le.trans (NonemptyInterval.mem_def.mp hto).2
  rcases h.cases hrange hnext with heq | hbefore | hafter
  · exact heq
  · exact absurd hbefore (hreach hrange hfirst hsecond)
  · exact absurd hafter (hreach hnext hsecond hfirst)

theorem Apart.nodup (h : Apart ranges) : ranges.Nodup := by
  refine List.Pairwise.imp ?_ h
  rintro range next hgap rfl
  exact absurd (range.fst_le_snd.trans (Order.le_succ _)) hgap.not_ge

/-- No ranges over the same elements are fewer. -/
theorem Apart.length_le (h : Apart ranges) (hsame : covered others = covered ranges) :
    ranges.length ≤ others.length := by
  classical
  have hstart : ∀ range ∈ ranges, ∃ other ∈ others, range.fst ∈ other := by
    intro range hrange
    have hmem : range.fst ∈ covered ranges :=
      ⟨range, hrange, NonemptyInterval.mem_def.mpr ⟨le_rfl, range.fst_le_snd⟩⟩
    rwa [← hsame] at hmem
  choose! holder hholder hstarts using hstart
  have hinjective : Set.InjOn holder ranges.toFinset := by
    intro range hrange next hnext heq
    simp only [List.coe_toFinset, Set.mem_ofPred_eq] at hrange hnext
    refine h.eq_of_mem (fun a ha => ?_) hrange hnext (hstarts range hrange) (heq ▸ hstarts next hnext)
    exact hsame ▸ ⟨holder range, hholder range hrange, ha⟩
  have hmaps : Set.MapsTo holder ranges.toFinset others.toFinset := by
    intro range hrange
    simp only [List.coe_toFinset, Set.mem_ofPred_eq] at hrange ⊢
    exact hholder range hrange
  calc ranges.length = ranges.toFinset.card := (List.toFinset_card_of_nodup h.nodup).symm
    _ ≤ others.toFinset.card := Finset.card_le_card_of_injOn holder hmaps hinjective
    _ ≤ others.length := others.toFinset_card_le

end Order

/-! Ranges of numbers, written out. -/

/-- The numbers of a range, in order. -/
def numbers (range : NonemptyInterval ℕ) : List ℕ := List.range' range.fst (range.snd + 1 - range.fst)

variable {range : NonemptyInterval ℕ} {ranges : List (NonemptyInterval ℕ)}

theorem mem_numbers {n : ℕ} : n ∈ numbers range ↔ n ∈ range := by
  rw [numbers, List.mem_range'_1, NonemptyInterval.mem_def]
  have := range.fst_le_snd
  omega

theorem covered_eq : covered ranges = {n | n ∈ ranges.flatMap numbers} := by
  ext n
  simp [covered, mem_numbers]

theorem apart_of_sorted (hsorted : (ranges.flatMap numbers).Pairwise (· < ·))
    (hbreaks : ranges.IsChain fun range next => next.fst ≠ range.snd + 1) : Apart ranges := by
  have hordered : ranges.Pairwise fun range next => range.snd < next.fst := by
    refine (List.pairwise_flatMap.mp hsorted).2.imp ?_
    intro range next hlt
    exact hlt _ (mem_numbers.mpr (NonemptyInterval.mem_def.mpr ⟨range.fst_le_snd, le_rfl⟩)) _
      (mem_numbers.mpr (NonemptyInterval.mem_def.mpr ⟨le_rfl, next.fst_le_snd⟩))
  have hgaps : ranges.IsChain fun range next => Order.succ range.snd < next.fst := by
    rw [List.isChain_iff_getElem] at hbreaks ⊢
    intro i hi
    have hlt := List.pairwise_iff_getElem.mp hordered i (i + 1) (Nat.lt_of_succ_lt hi) hi (Nat.lt_succ_self i)
    have hbreak := hbreaks i hi
    rw [Nat.succ_eq_succ, Nat.succ_eq_add_one]
    omega
  have : IsTrans (NonemptyInterval ℕ) fun range next => Order.succ range.snd < next.fst :=
    ⟨fun first second third hfirst hsecond =>
      hfirst.trans_le (second.fst_le_snd.trans ((Order.le_succ _).trans hsecond.le))⟩
  exact hgaps.pairwise

end Ranges
