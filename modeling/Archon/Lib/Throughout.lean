import Mathlib

/-! Traces. What is said of an entry may depend on the entries before it. -/
variable {ε : Type} {good : List ε → ε → Prop} {trace : List ε}

/-- Every entry of the trace is good after the entries before it. -/
def Throughout (good : List ε → ε → Prop) (trace : List ε) : Prop :=
  ∀ before entry rest, trace = before ++ entry :: rest → good before entry

namespace Throughout

theorem nil : Throughout good [] := by
  intro before entry rest h
  simp at h

theorem concat {last : ε} (h : Throughout good trace) (hlast : good trace last) :
    Throughout good (trace ++ [last]) := by
  intro before entry rest heq
  rcases List.eq_nil_or_concat rest with rfl | ⟨init, final, rfl⟩
  · obtain ⟨rfl, hsame⟩ := List.append_inj' heq rfl
    cases hsame
    exact hlast
  · refine h before entry init ?_
    rw [List.concat_eq_append, ← List.cons_append, ← List.append_assoc] at heq
    exact (List.append_inj' heq rfl).1

theorem initial {extra : List ε} (h : Throughout good (trace ++ extra)) : Throughout good trace := by
  intro before entry rest heq
  exact h before entry (rest ++ extra) (by rw [heq]; simp)

theorem extend {extra : List ε} (h : Throughout good trace)
    (hextra : ∀ init entry tail, extra = init ++ entry :: tail → good (trace ++ init) entry) :
    Throughout good (trace ++ extra) := by
  induction extra generalizing trace with
  | nil => simpa using h
  | cons entry extra ih =>
    rw [List.append_cons]
    refine ih (h.concat ?_) fun init other tail heq => ?_
    · simpa using hextra [] entry extra rfl
    · simpa using hextra (entry :: init) other tail (by rw [heq, List.cons_append])

theorem append {extra : List ε} (h : Throughout good trace)
    (hextra : ∀ entry ∈ extra, ∀ before, good before entry) : Throughout good (trace ++ extra) :=
  h.extend fun init entry tail heq => hextra entry (by rw [heq]; simp) (trace ++ init)

theorem mono {good' : List ε → ε → Prop} (h : Throughout good trace)
    (himp : ∀ before entry, good before entry → good' before entry) : Throughout good' trace :=
  fun before entry rest heq => himp before entry (h before entry rest heq)

theorem filter {good' : List ε → ε → Prop} {kind : ε → Bool} (h : Throughout good trace)
    (himp : ∀ before entry, kind entry → good before entry → good' (before.filter kind) entry) :
    Throughout good' (trace.filter kind) := by
  intro before entry rest heq
  obtain ⟨init, tail, rfl, rfl, htail⟩ := List.filter_eq_append_iff.mp heq
  obtain ⟨skipped, later, rfl, hskipped, hkind, -⟩ := List.filter_eq_cons_iff.mp htail
  have hgood := himp (init ++ skipped) entry hkind (h (init ++ skipped) entry later (by simp))
  rw [List.filter_append, List.filter_eq_nil_iff.mpr hskipped, List.append_nil] at hgood
  exact hgood

theorem get {k : Nat} (h : Throughout good trace) (hk : k < trace.length) :
    good (trace.take k) (trace.get ⟨k, hk⟩) :=
  h (trace.take k) _ (trace.drop (k + 1))
    (by rw [List.get_eq_getElem, List.getElem_cons_drop, List.take_append_drop])

/-- A value that no entry shares with an earlier one occurs once. -/
theorem nodup_map {κ : Type} {key : ε → κ}
    (h : Throughout (fun before entry => ∀ earlier ∈ before, key earlier ≠ key entry) trace) :
    (trace.map key).Nodup := by
  rw [List.Nodup, List.pairwise_map, List.pairwise_iff_getElem]
  intro i j hi hj hij
  exact Throughout.get h hj _ (List.mem_take_iff_getElem.mpr ⟨i, by omega, rfl⟩)

theorem length_le {bound : Nat} (h : Throughout (fun before _ => before.length < bound) trace) :
    trace.length ≤ bound := by
  rcases Nat.eq_zero_or_pos trace.length with hzero | hpos
  · omega
  · have hlast := Throughout.get h (Nat.sub_lt hpos Nat.one_pos)
    rw [List.length_take] at hlast
    omega

/-- What each entry has to the one just before it, by its place. -/
theorem consecutive {R : Nat → ε → ε → Prop} {k : Nat} {earlier later : ε}
    (h : Throughout (fun before entry => ∀ last, before.getLast? = some last →
      R before.length last entry) trace)
    (hearlier : (trace)[k]? = some earlier) (hlater : (trace)[k + 1]? = some later) :
    R (k + 1) earlier later := by
  obtain ⟨hk, rfl⟩ := List.getElem?_eq_some_iff.mp hlater
  have hlast : (trace.take (k + 1)).getLast? = some earlier := by
    rw [List.getLast?_take, if_neg (Nat.succ_ne_zero k), Nat.add_sub_cancel, hearlier, Option.some_or]
  have hrel := Throughout.get h hk earlier hlast
  rw [List.length_take, Nat.min_eq_left (Nat.le_of_lt hk)] at hrel
  exact hrel

end Throughout
