import Mathlib

/-! Programs that check and mutate. Checks live in `Except`; a program with a
mutable state lives in `EStateM`, where a failing program keeps whatever it
wrote before it failed. Each construct has one equation for its successful
outcome, so a successful run unfolds into the facts its checks established. -/

/-- Fail with `error` when `condition` holds. -/
def refuseIf {ε : Type} (condition : Prop) [Decidable condition] (error : ε) : Except ε Unit :=
  if condition then .error error else .ok ()

/-- The value of an option, or `error` when there is none. -/
def okOr {ε α : Type} (value : Option α) (error : ε) : Except ε α :=
  match value with
  | some a => .ok a
  | none => .error error

/-- Run a check inside a program with state; it writes nothing. -/
def attempt {ε σ α : Type} (check : Except ε α) : EStateM ε σ α := fun s =>
  match check with
  | .ok a => .ok a s
  | .error e => .error e s

/-- Run a program whose failure is noted and forgotten; its writes stay. -/
def observe {ε σ α : Type} (program : EStateM ε σ α) : EStateM ε σ (Option α) := fun s =>
  match program s with
  | .ok a t => .ok (some a) t
  | .error _ t => .ok none t

/-- The outcome of a program, without the state it leaves. -/
def conclude {ε σ α : Type} (program : EStateM ε σ α) (s : σ) : Except ε α :=
  match program s with
  | .ok a _ => .ok a
  | .error e _ => .error e

namespace Fallible
variable {ε σ α β : Type}

/-! Checks. -/

@[simp] theorem refuseIf_ok {condition : Prop} [Decidable condition] {error : ε} {u : Unit} :
    refuseIf condition error = .ok u ↔ ¬condition := by
  unfold refuseIf
  split <;> simp_all

@[simp] theorem okOr_ok {value : Option α} {error : ε} {a : α} :
    okOr value error = .ok a ↔ value = some a := by
  cases value <;> simp [okOr]

@[simp] theorem check_bind_ok {check : Except ε α} {next : α → Except ε β} {b : β} :
    (check >>= next) = .ok b ↔ ∃ a, check = .ok a ∧ next a = .ok b := by
  cases check <;> simp [bind, Except.bind]

@[simp] theorem check_pure_ok {a b : α} : (pure a : Except ε α) = .ok b ↔ a = b := by
  simp [pure, Except.pure]

@[simp] theorem check_ite_ok {condition : Prop} [Decidable condition] {yes no : Except ε α} {a : α} :
    (if condition then yes else no) = .ok a ↔
      (condition ∧ yes = .ok a) ∨ (¬condition ∧ no = .ok a) := by
  split <;> simp_all

@[simp] theorem exists_unit_ok {check : Except ε Unit} :
    (∃ u, check = .ok u) ↔ check = .ok () :=
  ⟨fun ⟨_, h⟩ => h, fun h => ⟨(), h⟩⟩

/-- A loop of checks succeeds exactly when each check does. -/
@[simp] theorem forM_ok {items : List α} {check : α → Except ε Unit} {u : Unit} :
    forM items check = .ok u ↔ ∀ a ∈ items, check a = .ok () := by
  induction items with
  | nil => simp
  | cons a items ih =>
    simp only [List.forM_cons, check_bind_ok, ih, List.mem_cons, forall_eq_or_imp]
    constructor
    · rintro ⟨_, ha, hrest⟩
      exact ⟨ha, hrest⟩
    · rintro ⟨ha, hrest⟩
      exact ⟨_, ha, hrest⟩

/-- What each pass of a loop that can stop preserves, a finished loop preserves. -/
theorem foldlM_invariant {σ : Type} {pass : σ → α → Except ε σ} {inv : σ → Prop}
    (hpass : ∀ s a t, pass s a = .ok t → inv s → inv t) {items : List α} {s t : σ}
    (h : items.foldlM pass s = .ok t) (hs : inv s) : inv t := by
  induction items generalizing s with
  | nil =>
    cases h
    exact hs
  | cons a items ih =>
    rw [List.foldlM_cons, check_bind_ok] at h
    obtain ⟨next, hnext, hrest⟩ := h
    exact ih hrest (hpass s a next hnext hs)

/-- A loop that collects results succeeds exactly when each step yields the
result at its position. -/
theorem mapM_ok {items : List α} {check : α → Except ε β} {results : List β} :
    items.mapM check = .ok results ↔ List.Forall₂ (fun a b => check a = .ok b) items results := by
  induction items generalizing results with
  | nil => cases results <;> simp
  | cons a items ih =>
    rw [List.mapM_cons]
    simp only [check_bind_ok, check_pure_ok, ih]
    constructor
    · rintro ⟨b, hb, rest, hrest, rfl⟩
      exact .cons hb hrest
    · intro h
      cases h with
      | cons hb hrest => exact ⟨_, hb, _, hrest, rfl⟩

/-! Programs with state. -/

@[simp] theorem bind_ok {program : EStateM ε σ α} {next : α → EStateM ε σ β} {s t : σ} {b : β} :
    (program >>= next) s = .ok b t ↔ ∃ a u, program s = .ok a u ∧ next a u = .ok b t := by
  change EStateM.bind program next s = _ ↔ _
  unfold EStateM.bind
  cases program s <;> simp

@[simp] theorem pure_ok {a b : α} {s t : σ} :
    (pure a : EStateM ε σ α) s = .ok b t ↔ a = b ∧ s = t := by
  change EStateM.Result.ok a s = _ ↔ _
  simp

@[simp] theorem map_ok {program : EStateM ε σ α} {f : α → β} {s t : σ} {b : β} :
    (f <$> program) s = .ok b t ↔ ∃ a, program s = .ok a t ∧ f a = b := by
  change EStateM.map f program s = _ ↔ _
  unfold EStateM.map
  cases program s <;> simp [and_comm]

@[simp] theorem throw_ok {e : ε} {s t : σ} {a : α} :
    (throw e : EStateM ε σ α) s = .ok a t ↔ False := by
  change EStateM.Result.error e s = _ ↔ _
  simp

@[simp] theorem get_ok {s t : σ} {a : σ} :
    (get : EStateM ε σ σ) s = .ok a t ↔ s = a ∧ s = t := by
  change EStateM.Result.ok s s = _ ↔ _
  simp

@[simp] theorem modify_ok {f : σ → σ} {s t : σ} {u : Unit} :
    (modify f : EStateM ε σ Unit) s = .ok u t ↔ f s = t := by
  change EStateM.Result.ok _ (f s) = _ ↔ _
  simp

@[simp] theorem attempt_ok {check : Except ε α} {s t : σ} {a : α} :
    (attempt check : EStateM ε σ α) s = .ok a t ↔ check = .ok a ∧ s = t := by
  unfold attempt
  cases check <;> simp

@[simp] theorem ite_ok {condition : Prop} [Decidable condition] {yes no : EStateM ε σ α}
    {s t : σ} {a : α} :
    (if condition then yes else no) s = .ok a t ↔
      (condition ∧ yes s = .ok a t) ∨ (¬condition ∧ no s = .ok a t) := by
  split <;> simp_all

@[simp] theorem observe_ok {program : EStateM ε σ α} {s t : σ} {result : Option α} :
    observe program s = .ok result t ↔
      (∃ a, result = some a ∧ program s = .ok a t) ∨
        (result = none ∧ ∃ e, program s = .error e t) := by
  unfold observe
  cases program s <;> simp [eq_comm]

@[simp] theorem conclude_ok {program : EStateM ε σ α} {s : σ} {a : α} :
    conclude program s = .ok a ↔ ∃ t, program s = .ok a t := by
  unfold conclude
  cases program s <;> simp

/-! Failures. -/

/-- From `s` the program cannot fail. -/
def Succeeds (s : σ) (program : EStateM ε σ α) : Prop := ∃ a t, program s = .ok a t

/-- From `s` a failure leaves the state as it found it. -/
def Atomic (s : σ) (program : EStateM ε σ α) : Prop := ∀ e t, program s = .error e t → t = s

theorem Succeeds.atomic {s : σ} {program : EStateM ε σ α} (h : Succeeds s program) :
    Atomic s program := by
  intro e t ht
  obtain ⟨a, u, hok⟩ := h
  rw [hok] at ht
  cases ht

@[simp] theorem succeeds_pure (s : σ) (a : α) : Succeeds s (pure a : EStateM ε σ α) := ⟨a, s, rfl⟩

@[simp] theorem succeeds_get (s : σ) : Succeeds s (get : EStateM ε σ σ) := ⟨s, s, rfl⟩

@[simp] theorem succeeds_modify (s : σ) (f : σ → σ) :
    Succeeds s (modify f : EStateM ε σ Unit) := ⟨(), f s, rfl⟩

@[simp] theorem succeeds_map {s : σ} {f : α → β} {program : EStateM ε σ α} :
    Succeeds s (f <$> program) ↔ Succeeds s program := by
  simp only [Succeeds, map_ok]
  constructor
  · rintro ⟨_, t, a, h, -⟩
    exact ⟨a, t, h⟩
  · rintro ⟨a, t, h⟩
    exact ⟨f a, t, a, h, rfl⟩

@[simp] theorem succeeds_get_bind {s : σ} {next : σ → EStateM ε σ β} :
    Succeeds s (get >>= next) ↔ Succeeds s (next s) := Iff.rfl

@[simp] theorem succeeds_modify_bind {s : σ} {f : σ → σ} {next : Unit → EStateM ε σ β} :
    Succeeds s (modify f >>= next) ↔ Succeeds (f s) (next ()) := Iff.rfl

@[simp] theorem atomic_pure (s : σ) (a : α) : Atomic s (pure a : EStateM ε σ α) :=
  (succeeds_pure s a).atomic

@[simp] theorem atomic_map {s : σ} {f : α → β} {program : EStateM ε σ α} :
    Atomic s (f <$> program) ↔ Atomic s program := by
  simp only [Atomic]
  change (∀ e t, EStateM.map f program s = _ → _) ↔ _
  unfold EStateM.map
  cases program s <;> simp

@[simp] theorem atomic_modify (s : σ) (f : σ → σ) : Atomic s (modify f : EStateM ε σ Unit) :=
  (succeeds_modify s f).atomic

@[simp] theorem atomic_throw (s : σ) (e : ε) : Atomic s (throw e : EStateM ε σ α) := by
  intro e' t h
  cases h
  rfl

@[simp] theorem atomic_get_bind {s : σ} {next : σ → EStateM ε σ β} :
    Atomic s (get >>= next) ↔ Atomic s (next s) := Iff.rfl

/-- Once its checks have passed, a program may write if it then succeeds. -/
@[simp] theorem atomic_modify_bind {s : σ} {f : σ → σ} {next : Unit → EStateM ε σ β}
    (h : Succeeds (f s) (next ())) : Atomic s (modify f >>= next) :=
  (succeeds_modify_bind.mpr h).atomic

@[simp] theorem atomic_attempt (s : σ) (check : Except ε α) : Atomic s (attempt check) := by
  intro e t h
  cases check <;> cases h
  rfl

@[simp] theorem atomic_attempt_bind {s : σ} {check : Except ε α} {next : α → EStateM ε σ β} :
    Atomic s (attempt check >>= next) ↔ ∀ a, check = .ok a → Atomic s (next a) := by
  cases check with
  | ok a =>
    simp only [Except.ok.injEq, forall_eq']
    exact Iff.rfl
  | error e =>
    simp only [reduceCtorEq, false_implies, implies_true, iff_true]
    intro e' t h
    cases h
    rfl

@[simp] theorem atomic_ite {s : σ} {condition : Prop} [Decidable condition]
    {yes no : EStateM ε σ α} :
    Atomic s (if condition then yes else no) ↔
      (condition → Atomic s yes) ∧ (¬condition → Atomic s no) := by
  split <;> simp_all

/-! Results. -/

/-- Whatever a successful run from `s` returns and leaves satisfies `post`. -/
def Yields (s : σ) (program : EStateM ε σ α) (post : α → σ → Prop) : Prop :=
  ∀ a t, program s = .ok a t → post a t

@[simp] theorem yields_pure {s : σ} {a : α} {post : α → σ → Prop} :
    Yields s (pure a : EStateM ε σ α) post ↔ post a s := by
  simp [Yields]

@[simp] theorem yields_map {s : σ} {f : α → β} {program : EStateM ε σ α} {post : β → σ → Prop} :
    Yields s (f <$> program) post ↔ Yields s program fun a t => post (f a) t := by
  simp only [Yields, map_ok]
  constructor
  · exact fun h a t ha => h (f a) t ⟨a, ha, rfl⟩
  · rintro h _ t ⟨a, ha, rfl⟩
    exact h a t ha

@[simp] theorem yields_modify {s : σ} {f : σ → σ} {post : Unit → σ → Prop} :
    Yields s (modify f : EStateM ε σ Unit) post ↔ post () (f s) := by
  simp only [Yields, modify_ok]
  exact ⟨fun h => h () _ rfl, fun h _ _ ht => ht ▸ h⟩

@[simp] theorem yields_throw (s : σ) (e : ε) (post : α → σ → Prop) :
    Yields s (throw e : EStateM ε σ α) post := by
  simp [Yields]

@[simp] theorem yields_get_bind {s : σ} {next : σ → EStateM ε σ β} {post : β → σ → Prop} :
    Yields s (get >>= next) post ↔ Yields s (next s) post := Iff.rfl

@[simp] theorem yields_modify_bind {s : σ} {f : σ → σ} {next : Unit → EStateM ε σ β}
    {post : β → σ → Prop} : Yields s (modify f >>= next) post ↔ Yields (f s) (next ()) post := Iff.rfl

@[simp] theorem yields_attempt_bind {s : σ} {check : Except ε α} {next : α → EStateM ε σ β}
    {post : β → σ → Prop} :
    Yields s (attempt check >>= next) post ↔ ∀ a, check = .ok a → Yields s (next a) post := by
  simp only [Yields, bind_ok, attempt_ok]
  constructor
  · intro h a ha b t ht
    exact h b t ⟨a, s, ⟨ha, rfl⟩, ht⟩
  · rintro h b t ⟨a, _, ⟨ha, rfl⟩, ht⟩
    exact h a ha b t ht

@[simp] theorem yields_ite {s : σ} {condition : Prop} [Decidable condition]
    {yes no : EStateM ε σ α} {post : α → σ → Prop} :
    Yields s (if condition then yes else no) post ↔
      (condition → Yields s yes post) ∧ (¬condition → Yields s no post) := by
  split <;> simp_all

theorem yields_bind {s : σ} {program : EStateM ε σ α} {next : α → EStateM ε σ β}
    {mid : α → σ → Prop} {post : β → σ → Prop} (h : Yields s program mid)
    (hnext : ∀ a t, mid a t → Yields t (next a) post) : Yields s (program >>= next) post := by
  intro b t ht
  obtain ⟨a, u, hu, ht⟩ := bind_ok.mp ht
  exact hnext a u (h a u hu) b t ht

/-- The program succeeds from `s`, and what it returns and leaves satisfies `post`. -/
def Reaches (s : σ) (program : EStateM ε σ α) (post : α → σ → Prop) : Prop :=
  ∃ a t, program s = .ok a t ∧ post a t

@[simp] theorem reaches_pure {s : σ} {a : α} {post : α → σ → Prop} :
    Reaches s (pure a : EStateM ε σ α) post ↔ post a s := by
  simp [Reaches]

@[simp] theorem reaches_get_bind {s : σ} {next : σ → EStateM ε σ β} {post : β → σ → Prop} :
    Reaches s (get >>= next) post ↔ Reaches s (next s) post := Iff.rfl

@[simp] theorem reaches_modify_bind {s : σ} {f : σ → σ} {next : Unit → EStateM ε σ β}
    {post : β → σ → Prop} :
    Reaches s (modify f >>= next) post ↔ Reaches (f s) (next ()) post := Iff.rfl

@[simp] theorem reaches_attempt {s : σ} {check : Except ε α} {post : α → σ → Prop} :
    Reaches s (attempt check) post ↔ ∃ a, check = .ok a ∧ post a s := by
  simp only [Reaches, attempt_ok]
  constructor
  · rintro ⟨a, _, ⟨ha, rfl⟩, hpost⟩
    exact ⟨a, ha, hpost⟩
  · rintro ⟨a, ha, hpost⟩
    exact ⟨a, s, ⟨ha, rfl⟩, hpost⟩

theorem reaches_bind {s : σ} {program : EStateM ε σ α} {next : α → EStateM ε σ β}
    {mid : α → σ → Prop} {post : β → σ → Prop} (h : Reaches s program mid)
    (hnext : ∀ a t, mid a t → Reaches t (next a) post) : Reaches s (program >>= next) post := by
  obtain ⟨a, t, ha, hmid⟩ := h
  obtain ⟨b, u, hb, hpost⟩ := hnext a t hmid
  exact ⟨b, u, bind_ok.mpr ⟨a, t, ha, hb⟩, hpost⟩

@[simp] theorem reaches_attempt_bind {s : σ} {check : Except ε α} {next : α → EStateM ε σ β}
    {post : β → σ → Prop} :
    Reaches s (attempt check >>= next) post ↔ ∃ a, check = .ok a ∧ Reaches s (next a) post := by
  simp only [Reaches, bind_ok, attempt_ok]
  constructor
  · rintro ⟨b, u, ⟨a, _, ⟨ha, rfl⟩, hb⟩, hpost⟩
    exact ⟨a, ha, b, u, hb, hpost⟩
  · rintro ⟨a, ha, b, u, hb, hpost⟩
    exact ⟨b, u, ⟨a, s, ⟨ha, rfl⟩, hb⟩, hpost⟩

/-! Whatever the outcome. -/

/-- The state a program leaves, whether it succeeds or fails. -/
def after (program : EStateM ε σ α) (s : σ) : σ :=
  match program s with
  | .ok _ t => t
  | .error _ t => t

theorem after_of_ok {program : EStateM ε σ α} {s t : σ} {a : α} (h : program s = .ok a t) :
    after program s = t := by
  simp [after, h]

theorem Atomic.after_eq {s : σ} {program : EStateM ε σ α} (h : Atomic s program) :
    after program s = s ∨ ∃ a, program s = .ok a (after program s) := by
  unfold after
  cases hrun : program s with
  | ok a t => exact .inr ⟨a, rfl⟩
  | error e t => exact .inl (h e t hrun)

@[simp] theorem after_map (f : α → β) (program : EStateM ε σ α) (s : σ) :
    after (f <$> program) s = after program s := by
  unfold after
  change (match EStateM.map f program s with | .ok _ t => t | .error _ t => t) = _
  unfold EStateM.map
  cases program s <;> rfl

@[simp] theorem after_modify (f : σ → σ) (s : σ) :
    after (modify f : EStateM ε σ Unit) s = f s := rfl

@[simp] theorem after_get_bind (next : σ → EStateM ε σ β) (s : σ) :
    after (get >>= next) s = after (next s) s := rfl

@[simp] theorem after_modify_bind (f : σ → σ) (next : Unit → EStateM ε σ β) (s : σ) :
    after (modify f >>= next) s = after (next ()) (f s) := rfl

/-- What a program and, if it succeeds, its continuation leave. -/
theorem after_bind {inv : σ → Prop} {program : EStateM ε σ α} {next : α → EStateM ε σ β} {s : σ}
    (hfirst : inv (after program s))
    (hnext : ∀ a t, program s = .ok a t → inv (after (next a) t)) :
    inv (after (program >>= next) s) := by
  unfold after
  change inv (match EStateM.bind program next s with | .ok _ t => t | .error _ t => t)
  unfold EStateM.bind
  cases hrun : program s with
  | ok a t => exact hnext a t hrun
  | error e t =>
    simp only [after, hrun] at hfirst
    exact hfirst

end Fallible
