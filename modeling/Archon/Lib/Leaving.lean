import Archon.Lib.Fallible

/-! What a program leaves, whether it returns or fails. -/
namespace Fallible
variable {ε σ α β : Type} {s : σ}

/-- Whatever the outcome, `post` holds of what the program returns and of the state it leaves. -/
def Leaves (s : σ) (program : EStateM ε σ α) (post : Except ε α → σ → Prop) : Prop :=
  match program s with
  | .ok a t => post (.ok a) t
  | .error e t => post (.error e) t

theorem Leaves.ok {program : EStateM ε σ α} {post : Except ε α → σ → Prop} (h : Leaves s program post)
    {a : α} {t : σ} (hrun : program s = .ok a t) : post (.ok a) t := by
  unfold Leaves at h
  rwa [hrun] at h

theorem Leaves.error {program : EStateM ε σ α} {post : Except ε α → σ → Prop} (h : Leaves s program post)
    {e : ε} {t : σ} (hrun : program s = .error e t) : post (.error e) t := by
  unfold Leaves at h
  rwa [hrun] at h

theorem Leaves.mono {program : EStateM ε σ α} {post post' : Except ε α → σ → Prop}
    (h : Leaves s program post) (himp : ∀ result t, post result t → post' result t) :
    Leaves s program post' := by
  unfold Leaves at h ⊢
  split at h
  · exact himp _ _ h
  · exact himp _ _ h

@[simp] theorem leaves_pure {a : α} {post : Except ε α → σ → Prop} :
    Leaves s (pure a : EStateM ε σ α) post ↔ post (.ok a) s := Iff.rfl

@[simp] theorem leaves_throw_bind {e : ε} {next : α → EStateM ε σ β} {post : Except ε β → σ → Prop} :
    Leaves s (throw e >>= next) post ↔ post (.error e) s := Iff.rfl

@[simp] theorem leaves_modify {f : σ → σ} {post : Except ε Unit → σ → Prop} :
    Leaves s (modify f : EStateM ε σ Unit) post ↔ post (.ok ()) (f s) := Iff.rfl

@[simp] theorem leaves_get_bind {next : σ → EStateM ε σ β} {post : Except ε β → σ → Prop} :
    Leaves s (get >>= next) post ↔ Leaves s (next s) post := Iff.rfl

@[simp] theorem leaves_modify_bind {f : σ → σ} {next : Unit → EStateM ε σ β} {post : Except ε β → σ → Prop} :
    Leaves s (modify f >>= next) post ↔ Leaves (f s) (next ()) post := Iff.rfl

@[simp] theorem leaves_attempt_bind {check : Except ε α} {next : α → EStateM ε σ β}
    {post : Except ε β → σ → Prop} :
    Leaves s (attempt check >>= next) post ↔
      (∀ a, check = .ok a → Leaves s (next a) post) ∧ ∀ e, check = .error e → post (.error e) s := by
  cases check with
  | ok a =>
    simp only [Except.ok.injEq, forall_eq', reduceCtorEq, false_imp_iff, implies_true, and_true]
    exact Iff.rfl
  | error e =>
    simp only [Except.error.injEq, forall_eq', reduceCtorEq, false_imp_iff, implies_true, true_and]
    exact Iff.rfl

@[simp] theorem leaves_ite {condition : Prop} [Decidable condition] {yes no : EStateM ε σ α}
    {post : Except ε α → σ → Prop} :
    Leaves s (if condition then yes else no) post ↔
      (condition → Leaves s yes post) ∧ (¬condition → Leaves s no post) := by
  split <;> simp_all

theorem leaves_bind {program : EStateM ε σ α} {next : α → EStateM ε σ β} {mid : Except ε α → σ → Prop}
    {post : Except ε β → σ → Prop} (h : Leaves s program mid)
    (hnext : ∀ a t, mid (.ok a) t → Leaves t (next a) post)
    (herror : ∀ e t, mid (.error e) t → post (.error e) t) : Leaves s (program >>= next) post := by
  unfold Leaves at h ⊢
  change match EStateM.bind program next s with
    | .ok a t => post (.ok a) t
    | .error e t => post (.error e) t
  unfold EStateM.bind
  cases hrun : program s with
  | ok a t =>
    rw [hrun] at h
    exact hnext a t h
  | error e t =>
    rw [hrun] at h
    exact herror e t h

end Fallible
