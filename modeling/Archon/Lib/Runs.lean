import Mathlib

/-! Runs of a deterministic machine: a state carried along a list of events.
The rules turn what one event preserves into what a whole run preserves. -/
namespace Runs
variable {σ ε : Type} (step : σ → ε → σ)

/-- The state after the events, in order. -/
def run (start : σ) (events : List ε) : σ := events.foldl step start

/-- Each event of the run is good in the state it meets. -/
def Along (good : σ → ε → Prop) : σ → List ε → Prop
  | _, [] => True
  | s, e :: rest => good s e ∧ Along good (step s e) rest

instance decidableAlong (good : σ → ε → Prop) [∀ s e, Decidable (good s e)] :
    ∀ s events, Decidable (Along step good s events)
  | _, [] => .isTrue trivial
  | s, e :: rest =>
    have := decidableAlong good (step s e) rest
    inferInstanceAs (Decidable (good s e ∧ Along step good (step s e) rest))

variable {step} {start : σ} {good : σ → ε → Prop}

@[simp] theorem run_nil : run step start [] = start := rfl

@[simp] theorem run_concat (events : List ε) (e : ε) :
    run step start (events ++ [e]) = step (run step start events) e := by
  simp [run]

theorem run_append (before after : List ε) :
    run step start (before ++ after) = run step (run step start before) after := by
  simp [run]

theorem along_append (before after : List ε) :
    Along step good start (before ++ after) ↔
      Along step good start before ∧ Along step good (run step start before) after := by
  induction before generalizing start with
  | nil => simp [Along]
  | cons e rest ih =>
    simp only [List.cons_append, Along, ih, and_assoc]
    exact Iff.rfl

theorem along_concat (events : List ε) (e : ε) :
    Along step good start (events ++ [e]) ↔
      Along step good start events ∧ good (run step start events) e := by
  simp [along_append, Along]

theorem along_mono {good' : σ → ε → Prop} (himp : ∀ s e, good s e → good' s e) {events : List ε}
    (h : Along step good start events) : Along step good' start events := by
  induction events generalizing start with
  | nil => trivial
  | cons e rest ih => exact ⟨himp start e h.1, ih h.2⟩

theorem along_iff_forall (events : List ε) :
    Along step good start events ↔
      ∀ before e, before ++ [e] <+: events → good (run step start before) e := by
  induction events using List.reverseRecOn with
  | nil => simp [Along]
  | append_singleton events e ih =>
    rw [along_concat, ih]
    constructor
    · rintro ⟨h, hlast⟩ before e' hbefore
      rcases List.prefix_concat_iff.mp hbefore with heq | hbefore
      · obtain ⟨rfl, hsame⟩ := List.append_inj' heq rfl
        cases hsame
        exact hlast
      · exact h before e' hbefore
    · intro h
      exact ⟨fun before e' hbefore => h before e' (hbefore.trans (List.prefix_append _ _)),
        h events e List.prefix_rfl⟩

/-! Ghost values: something computed along the way from the states a run passes. -/

section Track
variable {γ : Type}

/-- The machine together with a value that each event updates. -/
def track (step : σ → ε → σ) (update : σ → ε → γ → γ) (seen : σ × γ) (e : ε) : σ × γ :=
  (step seen.1 e, update seen.1 e seen.2)

theorem run_track_fst (update : σ → ε → γ → γ) (g : γ) (events : List ε) :
    (run (track step update) (start, g) events).1 = run step start events := by
  induction events using List.reverseRecOn with
  | nil => rfl
  | append_singleton events e ih =>
    rw [run_concat, run_concat, ← ih]
    rfl

theorem run_track_snd (update : σ → ε → γ → γ) (g : γ) (events : List ε) (e : ε) :
    (run (track step update) (start, g) (events ++ [e])).2 =
      update (run step start events) e (run (track step update) (start, g) events).2 := by
  rw [run_concat, ← run_track_fst update g events]
  rfl

end Track

/-- What a run starts with and each event preserves, it ends with. The step may
assume what holds of every state on the way. -/
theorem invariant {inv : σ → Prop} (hstart : inv start)
    (hstep : ∀ events e, inv (run step start events) → inv (run step start (events ++ [e])))
    (events : List ε) : inv (run step start events) := by
  induction events using List.reverseRecOn with
  | nil => exact hstart
  | append_singleton events e ih => exact hstep events e ih

theorem invariant_along {inv : σ → Prop} (hstart : inv start)
    (hstep : ∀ events e, Along step good start events → good (run step start events) e →
      inv (run step start events) → inv (run step start (events ++ [e])))
    (events : List ε) (halong : Along step good start events) : inv (run step start events) := by
  induction events using List.reverseRecOn with
  | nil => exact hstart
  | append_singleton events e ih =>
    obtain ⟨hbefore, hgood⟩ := (along_concat events e).mp halong
    exact hstep events e hbefore hgood (ih hbefore)

theorem related {rel : σ → σ → Prop} (hrefl : ∀ s, rel s s)
    (hstep : ∀ s events e, rel s (run step start events) →
      rel s (run step start (events ++ [e])))
    (before after : List ε) : rel (run step start before) (run step start (before ++ after)) := by
  induction after using List.reverseRecOn with
  | nil =>
    rw [List.append_nil]
    exact hrefl _
  | append_singleton after e ih =>
    rw [← List.append_assoc]
    exact hstep _ _ _ ih

/-- When a good event is exactly one that keeps the property, the property
holds all along the run exactly when every event is good. -/
theorem forall_prefix_iff_along {inv : σ → Prop} (hstart : inv start)
    (hstep : ∀ events e, inv (run step start events) →
      (inv (run step start (events ++ [e])) ↔ good (run step start events) e))
    (events : List ε) :
    (∀ before, before <+: events → inv (run step start before)) ↔ Along step good start events := by
  induction events using List.reverseRecOn with
  | nil => simp [Along, hstart]
  | append_singleton events e ih =>
    rw [along_concat, ← ih]
    constructor
    · intro h
      have hevents := h events (List.prefix_append _ _)
      exact ⟨fun before hbefore => h before (hbefore.trans (List.prefix_append _ _)),
        (hstep events e hevents).mp (h _ List.prefix_rfl)⟩
    · rintro ⟨h, hgood⟩ before hbefore
      rcases List.prefix_concat_iff.mp hbefore with rfl | hbefore
      · exact (hstep events e (h events List.prefix_rfl)).mpr hgood
      · exact h before hbefore

end Runs
