import Archon.Lib.Fallible

/-! Programs that fail in certain ways only. -/
namespace Fallible
variable {ε σ α β : Type} {fault : ε → Prop}

/-- Wherever the program starts, the errors it ends with are of one kind. -/
def Failing (fault : ε → Prop) (program : EStateM ε σ α) : Prop :=
  ∀ s e t, program s = .error e t → fault e

namespace Failing

/-- A program that never fails fails in any way. -/
theorem of_ok {program : EStateM ε σ α} (h : ∀ s, ∃ a t, program s = .ok a t) : Failing fault program := by
  intro s e t herror
  obtain ⟨a, u, hok⟩ := h s
  rw [hok] at herror
  cases herror

theorem pure (a : α) : Failing fault (Pure.pure a : EStateM ε σ α) := of_ok fun s => ⟨a, s, rfl⟩

theorem modify (f : σ → σ) : Failing fault (modify f : EStateM ε σ Unit) := of_ok fun s => ⟨(), f s, rfl⟩

theorem bind {program : EStateM ε σ α} {next : α → EStateM ε σ β} (h : Failing fault program)
    (hnext : ∀ a, Failing fault (next a)) : Failing fault (program >>= next) := by
  intro s e t herror
  cases hrun : program s with
  | ok a u =>
    simp only [Bind.bind, EStateM.bind, hrun] at herror
    exact hnext a u e t herror
  | error found u =>
    simp only [Bind.bind, EStateM.bind, hrun] at herror
    cases herror
    exact h s e t hrun

theorem ite {condition : Prop} [Decidable condition] {yes no : EStateM ε σ α}
    (hyes : Failing fault yes) (hno : Failing fault no) :
    Failing fault (if condition then yes else no) := by
  split
  · exact hyes
  · exact hno

theorem forM {items : List α} {body : α → EStateM ε σ Unit} (h : ∀ a ∈ items, Failing fault (body a)) :
    Failing fault (items.forM body) := by
  induction items with
  | nil =>
    rw [List.forM_eq_forM, List.forM_nil]
    exact pure ()
  | cons a items ih =>
    rw [List.forM_eq_forM, List.forM_cons]
    exact (h a List.mem_cons_self).bind fun _ => ih fun b hb => h b (List.mem_cons_of_mem a hb)

theorem mapM {items : List α} {body : α → EStateM ε σ β} (h : ∀ a ∈ items, Failing fault (body a)) :
    Failing fault (items.mapM body) := by
  induction items with
  | nil =>
    rw [List.mapM_nil]
    exact pure []
  | cons a items ih =>
    rw [List.mapM_cons]
    exact (h a List.mem_cons_self).bind fun b =>
      (ih fun c hc => h c (List.mem_cons_of_mem a hc)).bind fun rest => pure _

theorem foldlM {items : List α} {pass : β → α → EStateM ε σ β}
    (h : ∀ b, ∀ a ∈ items, Failing fault (pass b a)) (start : β) :
    Failing fault (items.foldlM pass start) := by
  induction items generalizing start with
  | nil => exact pure start
  | cons a items ih =>
    rw [List.foldlM_cons]
    exact (h start a List.mem_cons_self).bind fun next =>
      ih (fun b c hc => h b c (List.mem_cons_of_mem a hc)) next

theorem filterMapM {items : List α} {body : α → EStateM ε σ (Option β)}
    (h : ∀ a ∈ items, Failing fault (body a)) : Failing fault (items.filterMapM body) := by
  induction items with
  | nil =>
    rw [List.filterMapM_nil]
    exact pure []
  | cons a items ih =>
    rw [List.filterMapM_cons]
    refine (h a List.mem_cons_self).bind fun found => ?_
    have hrest := ih fun b hb => h b (List.mem_cons_of_mem a hb)
    cases found with
    | none => exact hrest
    | some b => exact hrest.bind fun rest => pure _

end Failing
end Fallible
