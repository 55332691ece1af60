import Mathlib

/-! Custody of tokens. A token that was taken in is in a queue or with a holder, in exactly
one place; it enters at the back of the queue, passes from the queue to a new holder, or
is given up. -/
variable {κ ℓ : Type}

/-- Every token in custody is queued once or held by one holder. -/
structure Custody (taken : κ → Prop) (queue : List κ) (held : ℓ → Option κ) : Prop where
  once : queue.Nodup
  alone : ∀ holder other token, held holder = some token → held other = some token → holder = other
  apart : ∀ holder token, held holder = some token → token ∉ queue
  covered : ∀ token, taken token → token ∈ queue ∨ ∃ holder, held holder = some token

namespace Custody
variable {taken : κ → Prop} {queue : List κ} {held : ℓ → Option κ}

theorem empty : Custody (fun _ : κ => False) [] (fun _ : ℓ => none) where
  once := .nil
  alone holder other token h := by cases h
  apart holder token h := by cases h
  covered token h := h.elim

theorem mono {taken' : κ → Prop} (h : Custody taken queue held)
    (himp : ∀ token, taken' token → taken token) : Custody taken' queue held :=
  { h with covered := fun token htaken => h.covered token (himp token htaken) }

/-- Never both places and never neither. -/
theorem exactly_one [DecidableEq κ] (h : Custody taken queue held) {token : κ} (htaken : taken token) :
    (queue.count token = 1 ∧ ∀ holder, held holder ≠ some token) ∨
      (token ∉ queue ∧ ∃! holder, held holder = some token) := by
  rcases h.covered token htaken with hqueued | ⟨holder, hholder⟩
  · exact .inl ⟨List.count_eq_one_of_mem h.once hqueued, fun holder hheld => h.apart holder token hheld hqueued⟩
  · exact .inr ⟨h.apart holder token hholder, holder, hholder,
      fun other hother => h.alone other holder token hother hholder⟩

theorem enqueue (h : Custody taken queue held) {token : κ} (hqueue : token ∉ queue)
    (hheld : ∀ holder, held holder ≠ some token) :
    Custody (fun other => taken other ∨ other = token) (queue ++ [token]) held where
  once := by
    rw [List.nodup_append]
    refine ⟨h.once, List.nodup_singleton token, ?_⟩
    rintro other hother _ hsame rfl
    exact hqueue (List.mem_singleton.mp hsame ▸ hother)
  alone := h.alone
  apart holder other hother hmem := by
    rcases List.mem_append.mp hmem with hbefore | hnew
    · exact h.apart holder other hother hbefore
    · rw [List.mem_singleton.mp hnew] at hother
      exact hheld holder hother
  covered other htaken := by
    rcases htaken with hbefore | rfl
    · exact (h.covered other hbefore).imp_left (List.mem_append_left _)
    · exact .inl (List.mem_append_right _ (List.mem_singleton_self _))

theorem grant (h : Custody taken queue held) {index : Nat} {token : κ} {holder : ℓ} {held' : ℓ → Option κ}
    (hqueue : queue[index]? = some token) (hfree : held holder = none) (hgiven : held' holder = some token)
    (hothers : ∀ other, other ≠ holder → held' other = held other) :
    Custody taken (queue.eraseIdx index) held' := by
  classical
  obtain ⟨hlt, hget⟩ := List.getElem?_eq_some_iff.mp hqueue
  have hsplit : queue = queue.take index ++ token :: queue.drop (index + 1) := by
    rw [← hget, List.getElem_cons_drop, List.take_append_drop]
  have hrest : queue.eraseIdx index = queue.take index ++ queue.drop (index + 1) :=
    List.eraseIdx_eq_take_drop_succ queue index
  have hgone : token ∉ queue.eraseIdx index := by
    have honce := h.once
    rw [hsplit] at honce
    rw [hrest]
    exact (List.nodup_middle.mp honce).notMem
  have hback : ∀ other found, held' other = some found →
      (other = holder ∧ found = token) ∨ held other = some found := by
    intro other found hfound
    by_cases heq : other = holder
    · subst heq
      rw [hgiven] at hfound
      cases hfound
      exact .inl ⟨rfl, rfl⟩
    · rw [hothers other heq] at hfound
      exact .inr hfound
  have hqueued : token ∈ queue := List.mem_of_getElem? hqueue
  refine ⟨h.once.sublist (List.eraseIdx_sublist _ _), ?_, ?_, ?_⟩
  · intro first second found hfirst hsecond
    rcases hback first found hfirst with ⟨rfl, rfl⟩ | hfirst
    · rcases hback second _ hsecond with ⟨rfl, -⟩ | hsecond
      · rfl
      · exact absurd hqueued (h.apart second _ hsecond)
    · rcases hback second found hsecond with ⟨rfl, rfl⟩ | hsecond
      · exact absurd hqueued (h.apart first _ hfirst)
      · exact h.alone first second found hfirst hsecond
  · intro other found hfound hmem
    rcases hback other found hfound with ⟨-, rfl⟩ | hfound
    · exact hgone hmem
    · exact h.apart other found hfound (List.mem_of_mem_eraseIdx hmem)
  · intro other htaken
    rcases h.covered other htaken with hmem | ⟨found, hfound⟩
    · by_cases heq : other = token
      · exact .inr ⟨holder, heq ▸ hgiven⟩
      · refine .inl ?_
        rw [hsplit] at hmem
        rw [hrest]
        simp only [List.mem_append, List.mem_cons, heq, false_or] at hmem ⊢
        exact hmem
    · refine .inr ⟨found, (hothers found ?_).trans hfound⟩
      rintro rfl
      rw [hfree] at hfound
      cases hfound

theorem drop (h : Custody taken queue held) (stays : κ → Bool) {taken' : κ → Prop}
    (htaken : ∀ token, taken' token → taken token ∧ stays token) :
    Custody taken' (queue.filter stays) held where
  once := h.once.filter _
  alone := h.alone
  apart holder token hheld hmem := h.apart holder token hheld (List.mem_of_mem_filter hmem)
  covered token hleft := by
    obtain ⟨hbefore, hstays⟩ := htaken token hleft
    exact (h.covered token hbefore).imp_left fun hmem => List.mem_filter.mpr ⟨hmem, hstays⟩

end Custody
