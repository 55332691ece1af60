import Mathlib

/-! Facts with owners. A register holds a value and perhaps an owner at every
key; `absent` is the value of a key that holds no fact. The relations say what
an update leaves alone, and compose, so a batch of updates is read fact by fact. -/
namespace Owned
variable {K V W : Type}

structure Register (K V W : Type) where
  value : K → V
  owner : K → Option W

/-- No fact is lost, an owner stays, and an owned fact changes only where the
update names it on behalf of its owner. -/
structure Tended (absent : V) (named : W → K → Prop) (before after : Register K V W) : Prop where
  owner : ∀ k w, before.owner k = some w → after.owner k = some w
  owned : ∀ k w, before.owner k = some w → after.value k ≠ before.value k → named w k
  kept : ∀ k, before.value k ≠ absent → after.value k ≠ absent

/-- A fact without owner is left alone, and stays without owner. -/
def Spared (absent : V) (before after : Register K V W) : Prop :=
  ∀ k, before.value k ≠ absent → before.owner k = none →
    after.value k = before.value k ∧ after.owner k = none

variable {absent : V} {named named' : W → K → Prop} {before middle after : Register K V W}

theorem Tended.refl : Tended absent named before before where
  owner _ _ h := h
  owned _ _ _ h := absurd rfl h
  kept _ h := h

theorem Tended.trans (h : Tended absent named before middle)
    (h' : Tended absent named middle after) : Tended absent named before after where
  owner k w hw := h'.owner k w (h.owner k w hw)
  owned k w hw hne := by
    by_cases hmiddle : middle.value k = before.value k
    · exact h'.owned k w (h.owner k w hw) (hmiddle ▸ hne)
    · exact h.owned k w hw hmiddle
  kept k hk := h'.kept k (h.kept k hk)

theorem Tended.mono (h : Tended absent named before after) (hnamed : ∀ w k, named w k → named' w k) :
    Tended absent named' before after :=
  ⟨h.owner, fun k w hw hne => hnamed w k (h.owned k w hw hne), h.kept⟩

theorem Spared.refl : Spared absent before before := fun _ _ h => ⟨rfl, h⟩

theorem Spared.trans (h : Spared absent before middle) (h' : Spared absent middle after) :
    Spared absent before after := by
  intro k hk hnone
  obtain ⟨hvalue, hunowned⟩ := h k hk hnone
  obtain ⟨hvalue', hunowned'⟩ := h' k (hvalue ▸ hk) hunowned
  exact ⟨hvalue'.trans hvalue, hunowned'⟩

section Write
variable {written : K → Prop} {writer : W}

/-- A writer that writes only what it owns, or what nobody has written yet. -/
theorem tended_of_write (hvalue : ∀ k, ¬written k → after.value k = before.value k)
    (hkept : ∀ k, before.value k ≠ absent → after.value k ≠ absent)
    (howner : ∀ k, written k → after.owner k = some writer)
    (hother : ∀ k, ¬written k → after.owner k = before.owner k)
    (hallowed : ∀ k, written k →
      before.owner k = some writer ∨ (before.owner k = none ∧ before.value k = absent)) :
    Tended absent (fun w k => writer = w ∧ written k) before after ∧ Spared absent before after := by
  have hfree : ∀ k w, before.owner k = some w → written k → writer = w := by
    intro k w hw hk
    rcases hallowed k hk with howned | ⟨hnone, -⟩
    · exact Option.some.inj (howned.symm.trans hw)
    · simp [hnone] at hw
  refine ⟨⟨?_, ?_, hkept⟩, ?_⟩
  · intro k w hw
    by_cases hk : written k
    · rw [howner k hk, hfree k w hw hk]
    · rw [hother k hk, hw]
  · intro k w hw hne
    by_cases hk : written k
    · exact ⟨hfree k w hw hk, hk⟩
    · exact absurd (hvalue k hk) hne
  · intro k hk hnone
    have hunwritten : ¬written k := by
      intro hwritten
      rcases hallowed k hwritten with howned | ⟨-, habsent⟩
      · simp [hnone] at howned
      · exact hk habsent
    exact ⟨hvalue k hunwritten, (hother k hunwritten).trans hnone⟩

end Write

end Owned
