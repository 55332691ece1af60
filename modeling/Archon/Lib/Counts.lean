import Archon.Lib.OrdMap

/-! Checked counting. A state holds an amount below a bound at each index, and an item
adds to it. A checked addition fails where an amount would reach the bound, and a loop of
them fails exactly where the exact total does. Where none fails the loop that does not
check computes the exact totals. -/

/-- `add` adds what an item holds at each index, and `checked` fails where that is too much. -/
structure Counts {σ α ι : Type} (bound : ℕ) (read : σ → ι → ℕ) (amount : α → ι → ℕ)
    (valid : α → Prop) (checked : σ → α → Option σ) (add : σ → α → σ) : Prop where
  below : ∀ s i, read s i < bound
  fits : ∀ s a, valid a → (∀ i, read s i + amount a i < bound) →
    checked s a = some (add s a) ∧ ∀ i, read (add s a) i = read s i + amount a i
  overflows : ∀ s a i, valid a → bound ≤ read s i + amount a i → checked s a = none

/-- Update the entry at `k` by a computation that may fail. -/
def OrdMap.tryUpsert {K V : Type} [Ord K] [Std.TransOrd K] (m : OrdMap K V) (k : K) (fresh : V)
    (f : V → Option V) : Option (OrdMap K V) :=
  (f (m[k]?.getD fresh)).map fun v => OrdMap.upsert m k fresh fun _ => v

namespace Counts
variable {σ α β ι : Type} {bound : ℕ} {read : σ → ι → ℕ} {amount : α → ι → ℕ} {valid : α → Prop}
  {checked : σ → α → Option σ} {add : σ → α → σ}

theorem isSome_iff (h : Counts bound read amount valid checked add) (s : σ) {a : α} (ha : valid a) :
    (checked s a).isSome ↔ ∀ i, read s i + amount a i < bound := by
  constructor
  · intro hsome i
    by_contra hreaches
    rw [h.overflows s a i ha (not_lt.mp hreaches)] at hsome
    cases hsome
  · intro hfits
    rw [(h.fits s a ha hfits).1]
    rfl

theorem comap (h : Counts bound read amount valid checked add) (f : β → α) :
    Counts bound read (fun b => amount (f b)) (fun b => valid (f b)) (fun s b => checked s (f b))
      (fun s b => add s (f b)) where
  below := h.below
  fits s b := h.fits s (f b)
  overflows s b := h.overflows s (f b)

theorem congr (h : Counts bound read amount valid checked add) {amount' : α → ι → ℕ}
    {valid' : α → Prop} (hvalid : ∀ a, valid' a → valid a)
    (hamount : ∀ a, valid' a → ∀ i, amount a i = amount' a i) :
    Counts bound read amount' valid' checked add where
  below := h.below
  fits s a ha hfits := by
    simp only [← hamount a ha] at hfits ⊢
    exact h.fits s a (hvalid a ha) hfits
  overflows s a i ha hreaches := by
    rw [← hamount a ha] at hreaches
    exact h.overflows s a i (hvalid a ha) hreaches

theorem foldlM (h : Counts bound read amount valid checked add) :
    Counts bound read (fun (items : List α) i => (items.map fun a => amount a i).sum)
      (fun items => ∀ a ∈ items, valid a) (fun s items => items.foldlM checked s)
      (fun s items => items.foldl add s) where
  below := h.below
  fits s items := by
    induction items generalizing s with
    | nil => simp
    | cons a rest ih =>
      intro hvalid hfits
      simp only [List.map_cons, List.sum_cons] at hfits ⊢
      obtain ⟨hchecked, hread⟩ := h.fits s a (hvalid a List.mem_cons_self) fun i => by
        have htotal := hfits i
        omega
      obtain ⟨hrest, hreads⟩ := ih (add s a) (fun b hb => hvalid b (List.mem_cons_of_mem _ hb))
        fun i => by
          have htotal := hfits i
          rw [hread]
          omega
      rw [List.foldlM_cons, List.foldl_cons, hchecked]
      exact ⟨hrest, fun i => by rw [hreads, hread, Nat.add_assoc]⟩
  overflows s items i := by
    induction items generalizing s with
    | nil =>
      intro _ hreaches
      exact absurd (h.below s i) (not_lt.mpr hreaches)
    | cons a rest ih =>
      intro hvalid hreaches
      simp only [List.map_cons, List.sum_cons] at hreaches
      rw [List.foldlM_cons]
      by_cases hfits : ∀ j, read s j + amount a j < bound
      · obtain ⟨hchecked, hread⟩ := h.fits s a (hvalid a List.mem_cons_self) hfits
        rw [hchecked]
        refine ih (add s a) (fun b hb => hvalid b (List.mem_cons_of_mem _ hb)) ?_
        rw [hread]
        omega
      · rw [not_forall] at hfits
        obtain ⟨j, hover⟩ := hfits
        rw [h.overflows s a j (hvalid a List.mem_cons_self) (not_lt.mp hover)]
        rfl

section Upsert
variable {K : Type} [Ord K] [Std.TransOrd K] [Std.LawfulEqOrd K] [DecidableEq K]

/-- Counting entry by entry: each item adds to the entry at its key. -/
theorem upsert (h : Counts bound read amount valid checked add) (key : α → K) (fresh : σ) :
    Counts bound (fun (m : OrdMap K σ) (i : K × ι) => read (m[i.1]?.getD fresh) i.2)
      (fun a i => if key a = i.1 then amount a i.2 else 0) valid
      (fun m a => OrdMap.tryUpsert m (key a) fresh (checked · a))
      (fun m a => OrdMap.upsert m (key a) fresh (add · a)) where
  below m i := h.below _ _
  fits m a ha hfits := by
    have hentry : ∀ i, read (m[key a]?.getD fresh) i + amount a i < bound := by
      intro i
      simpa using hfits (key a, i)
    obtain ⟨hchecked, hread⟩ := h.fits _ a ha hentry
    constructor
    · rw [OrdMap.tryUpsert, hchecked, Option.map_some]
      congr 1
      apply Std.ExtTreeMap.ext_getElem?
      intro k
      rw [OrdMap.get_upsert, OrdMap.get_upsert]
    · rintro ⟨k, i⟩
      dsimp only
      rw [OrdMap.get_upsert]
      by_cases hk : key a = k
      · subst hk
        simp only [if_true, Option.getD_some, hread]
      · simp only [if_neg hk, Nat.add_zero]
  overflows m a i ha hreaches := by
    by_cases hk : key a = i.1
    · rw [if_pos hk, ← hk] at hreaches
      rw [OrdMap.tryUpsert, h.overflows _ a i.2 ha hreaches, Option.map_none]
    · rw [if_neg hk, Nat.add_zero] at hreaches
      exact absurd (h.below _ _) (not_lt.mpr hreaches)

end Upsert
end Counts
