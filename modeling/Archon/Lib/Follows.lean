import Archon.Lib.Fallible

/-! Programs that only make certain moves. Whatever its outcome, the state such a
program leaves is reached from the state it met by a sequence of moves, so what
each move preserves, the program preserves. -/
namespace Fallible
variable {ε σ α β : Type} {move : σ → σ → Prop}

def Follows (move : σ → σ → Prop) (s : σ) (program : EStateM ε σ α) : Prop :=
  Relation.ReflTransGen move s (after program s)

/-- The program follows the moves wherever it starts. -/
def Moving (move : σ → σ → Prop) (program : EStateM ε σ α) : Prop :=
  ∀ s, Follows move s program

theorem after_of_error {program : EStateM ε σ α} {s t : σ} {e : ε} (h : program s = .error e t) :
    after program s = t := by
  simp [after, h]

theorem bind_of_error {program : EStateM ε σ α} {s t : σ} {e : ε} (h : program s = .error e t)
    (next : α → EStateM ε σ β) : (program >>= next) s = .error e t := by
  simp only [bind, EStateM.bind, h]

/-- Dropping a result changes nothing. -/
theorem after_bind_pure (program : EStateM ε σ α) (b : β) (s : σ) :
    after (program >>= fun _ => pure b) s = after program s :=
  @after_bind _ _ _ _ (fun t => t = after program s) program _ s rfl fun _ _ h => (after_of_ok h).symm

namespace Follows
variable {s : σ}

@[simp] theorem pure (a : α) : Follows move s (Pure.pure a : EStateM ε σ α) := .refl

@[simp] theorem throw (e : ε) : Follows move s (throw e : EStateM ε σ α) := .refl

/-- A move that writes nothing new is none. -/
theorem still {program : EStateM ε σ α} (h : after program s = s) : Follows move s program := by
  unfold Follows
  rw [h]

theorem bind {program : EStateM ε σ α} {next : α → EStateM ε σ β} (h : Follows move s program)
    (hnext : ∀ a t, program s = .ok a t → Follows move t (next a)) :
    Follows move s (program >>= next) := by
  refine @after_bind _ _ _ _ (Relation.ReflTransGen move s) program next s h fun a t ht => ?_
  unfold Follows at h
  rw [after_of_ok ht] at h
  exact h.trans (hnext a t ht)

@[simp] theorem map_iff {f : α → β} {program : EStateM ε σ α} :
    Follows move s (f <$> program) ↔ Follows move s program := by
  unfold Follows
  rw [after_map]

theorem ite {condition : Prop} [Decidable condition] {yes no : EStateM ε σ α}
    (hyes : condition → Follows move s yes) (hno : ¬condition → Follows move s no) :
    Follows move s (if condition then yes else no) := by
  split
  · rename_i h
    exact hyes h
  · rename_i h
    exact hno h

/-- A loop whose passes keep an invariant makes the moves of its passes. -/
theorem forM {inv : σ → Prop} {items : List α} {body : α → EStateM ε σ Unit} (hs : inv s)
    (hpass : ∀ a ∈ items, ∀ t, inv t → Follows move t (body a))
    (hinv : ∀ a ∈ items, ∀ t, inv t → Yields t (body a) fun _ u => inv u) :
    Follows move s (items.forM body) := by
  induction items generalizing s with
  | nil => exact .refl
  | cons a items ih =>
    change Follows move s (body a >>= fun _ => items.forM body)
    refine (hpass a List.mem_cons_self s hs).bind fun _ t ht => ?_
    exact ih (hinv a List.mem_cons_self s hs _ t ht)
      (fun b hb => hpass b (List.mem_cons_of_mem a hb)) fun b hb => hinv b (List.mem_cons_of_mem a hb)

theorem weaken {move' : σ → σ → Prop} {program : EStateM ε σ α} (h : Follows move s program)
    (hmono : ∀ t u, move t u → move' t u) : Follows move' s program :=
  Relation.ReflTransGen.mono hmono _ _ h

/-- Moves that compose lead to whatever the program leaves in one. -/
theorem related [Std.Refl move] [IsTrans σ move] {program : EStateM ε σ α}
    (h : Follows move s program) : move s (after program s) := by
  unfold Follows at h
  rwa [Relation.reflTransGen_eq_self] at h

theorem ok_related [Std.Refl move] [IsTrans σ move] {program : EStateM ε σ α} {t : σ} {a : α}
    (h : Follows move s program) (hok : program s = .ok a t) : move s t := by
  have hmove := h.related
  rwa [after_of_ok hok] at hmove

/-- What each move preserves, the program preserves. -/
theorem preserves {inv : σ → Prop} {program : EStateM ε σ α} (h : Follows move s program)
    (hmove : ∀ t u, move t u → inv t → inv u) (hs : inv s) : inv (after program s) := by
  unfold Follows at h
  generalize after program s = t at h ⊢
  induction h with
  | refl => exact hs
  | tail _ hstep ih => exact hmove _ _ hstep ih

end Follows

namespace Moving

@[simp] theorem pure (a : α) : Moving move (Pure.pure a : EStateM ε σ α) := fun _ => .refl

@[simp] theorem throw (e : ε) : Moving move (throw e : EStateM ε σ α) := fun _ => .refl

theorem bind {program : EStateM ε σ α} {next : α → EStateM ε σ β} (h : Moving move program)
    (hnext : ∀ a, Moving move (next a)) : Moving move (program >>= next) :=
  fun s => (h s).bind fun a t _ => hnext a t

@[simp] theorem map_iff {f : α → β} {program : EStateM ε σ α} :
    Moving move (f <$> program) ↔ Moving move program :=
  forall_congr' fun _ => Follows.map_iff

theorem ite {condition : Prop} [Decidable condition] {yes no : EStateM ε σ α}
    (hyes : Moving move yes) (hno : Moving move no) :
    Moving move (if condition then yes else no) := by
  split
  · exact hyes
  · exact hno

theorem forM {items : List α} {body : α → EStateM ε σ Unit} (h : ∀ a ∈ items, Moving move (body a)) :
    Moving move (items.forM body) := fun _ =>
  Follows.forM trivial (fun a ha t _ => h a ha t) fun _ _ _ _ _ _ _ => trivial

theorem mapM {items : List α} {body : α → EStateM ε σ β} (h : ∀ a ∈ items, Moving move (body a)) :
    Moving move (items.mapM body) := by
  induction items with
  | nil =>
    rw [List.mapM_nil]
    exact pure []
  | cons a items ih =>
    rw [List.mapM_cons]
    refine bind (h a List.mem_cons_self) fun b => bind (ih fun c hc => h c (List.mem_cons_of_mem a hc))
      fun rest => pure _

theorem foldlM {items : List α} {pass : β → α → EStateM ε σ β}
    (h : ∀ b, ∀ a ∈ items, Moving move (pass b a)) (start : β) :
    Moving move (items.foldlM pass start) := by
  induction items generalizing start with
  | nil => exact pure start
  | cons a items ih =>
    rw [List.foldlM_cons]
    exact bind (h start a List.mem_cons_self) fun next =>
      ih (fun b c hc => h b c (List.mem_cons_of_mem a hc)) next

end Moving

/-! Moves that keep an invariant may count on it wherever they start. -/

/-- The program follows the moves wherever the invariant holds. -/
def Guided (inv : σ → Prop) (move : σ → σ → Prop) (program : EStateM ε σ α) : Prop :=
  ∀ s, inv s → Follows move s program

namespace Guided
variable {inv : σ → Prop}

theorem of_moving {program : EStateM ε σ α} (h : Moving move program) : Guided inv move program :=
  fun s _ => h s

@[simp] theorem pure (a : α) : Guided inv move (Pure.pure a : EStateM ε σ α) := fun _ _ => .refl

theorem ok_inv (hkeeps : ∀ s t, move s t → inv s → inv t) {program : EStateM ε σ α} {s t : σ} {a : α}
    (h : Follows move s program) (hs : inv s) (hok : program s = .ok a t) : inv t := by
  have hafter := h.preserves hkeeps hs
  rwa [after_of_ok hok] at hafter

theorem bind (hkeeps : ∀ s t, move s t → inv s → inv t) {program : EStateM ε σ α}
    {next : α → EStateM ε σ β} (h : Guided inv move program)
    (hnext : ∀ a, Guided inv move (next a)) : Guided inv move (program >>= next) :=
  fun s hs => (h s hs).bind fun a t ht => hnext a t (ok_inv hkeeps (h s hs) hs ht)

theorem forM (hkeeps : ∀ s t, move s t → inv s → inv t) {items : List α}
    {body : α → EStateM ε σ Unit} (h : ∀ a ∈ items, Guided inv move (body a)) :
    Guided inv move (items.forM body) := fun _ hs =>
  Follows.forM hs (fun a ha t ht => h a ha t ht) fun a ha t ht _ _ hu =>
    ok_inv hkeeps (h a ha t ht) ht hu

theorem mapM (hkeeps : ∀ s t, move s t → inv s → inv t) {items : List α} {body : α → EStateM ε σ β}
    (h : ∀ a ∈ items, Guided inv move (body a)) : Guided inv move (items.mapM body) := by
  induction items with
  | nil =>
    rw [List.mapM_nil]
    exact pure []
  | cons a items ih =>
    rw [List.mapM_cons]
    exact bind hkeeps (h a List.mem_cons_self) fun b =>
      bind hkeeps (ih fun c hc => h c (List.mem_cons_of_mem a hc)) fun rest => pure _

end Guided
end Fallible
