import Archon.Kernel.Run

/-! The outcome of a finished lease. Completion keeps every finished state, but
failing, revoking, expiring and a provider failure do not list `completed`
among the states they keep, so each of them rewrites a completed lease it
reaches. Nothing else touches a finished lease. -/
namespace Archon.Kernel.Cluster
open Fallible

/-- The recorded end of a lease. -/
def outcome (c : Cluster) (id : LeaseId) : Option (LeaseState × Option Int32) :=
  c.leases[id]?.map fun lease => (lease.state, lease.exitCode)

/-- Whether a command ends every lease of a tree that contains `id`, or the
lease `id` alone, with the list of kept states that leaves `completed` out. -/
def reaches (c : Cluster) (id : LeaseId) : Command → Bool
  | .failLease top _ => id = top || id ∈ c.descendantsPostorder top
  | .revokeLease top => id = top || id ∈ c.descendantsPostorder top
  | .expireLease top =>
    (c.leases[top]?.any fun lease =>
      lease.state.isLive && (c.replaying || lease.expiresAt ≤ c.now)) &&
      id ∈ c.descendantsPostorder top
  | .recordBindingFailed binding session _ fence =>
    match c.acknowledged binding session fence with
    | .ok binding => binding.lease = id
    | .error _ => false
  | _ => false

/-- Whether an event rewrites the completed lease `id`. -/
def overwrites (c : Cluster) (id : LeaseId) : Event → Bool
  | .apply command => c.leases[id]?.any (fun lease => lease.state = .completed) && c.reaches id command
  | _ => false

theorem completedKeeps_eq (state : LeaseState) : completedKeeps state = !state.isLive := by
  cases state <;> rfl

theorem endedKeeps_eq (state : LeaseState) :
    endedKeeps state = (!state.isLive && state != .completed) := by
  cases state <;> rfl

theorem endLease_of_keeps {keeps : LeaseState → Bool} {lease : Lease} (h : keeps lease.state)
    (final : LeaseState) : endLease keeps final lease = lease := by
  simp [endLease, h]

theorem Ended.keeps_cases {c : Cluster} {id : LeaseId} {lease : Lease} {command : Command}
    (h : Ended c id lease command keeps final last) :
    (keeps = completedKeeps ∧ lease.state.isLive) ∨
      (keeps = endedKeeps ∧ final ≠ .completed ∧
        ∀ a, a ∈ c.descendantsPostorder id → c.leases[id]? = some lease → c.reaches a command) := by
  cases h with
  | fail => exact .inr ⟨rfl, by simp, fun a ha _ => by simp [reaches, ha]⟩
  | revoke => exact .inr ⟨rfl, by simp, fun a ha _ => by simp [reaches, ha]⟩
  | expire hlive hdue =>
    refine .inr ⟨rfl, by simp, fun a ha hlease => ?_⟩
    cases hreplaying : c.replaying with
    | true => simp [reaches, ha, hlease, hlive, hreplaying]
    | false => simp [reaches, ha, hlease, hlive, hdue hreplaying]
  | complete hlive => exact .inl ⟨rfl, hlive⟩

theorem Ended.last_of_finished {c : Cluster} {id : LeaseId} {lease : Lease} {command : Command}
    (h : Ended c id lease command keeps final last) (hfinished : lease.state.isLive = false) :
    last = endLease keeps final ∧ keeps = endedKeeps ∧ c.reaches id command := by
  cases h with
  | fail => exact ⟨rfl, rfl, by simp [reaches]⟩
  | revoke => exact ⟨rfl, rfl, by simp [reaches]⟩
  | expire hlive => simp [hfinished] at hlive
  | complete hlive => simp [hfinished] at hlive

theorem Advanced.from_live {c : Cluster} {id : LeaseId} {lease : Lease} {command : Command}
    {move : Lease → Lease} (h : Advanced c id lease command move) : lease.state.isLive := by
  cases h with
  | promote hstate => simp [hstate, LeaseState.isLive]
  | activate hstate => simp [hstate, LeaseState.isLive]
  | renew hstate => rcases hstate with hstate | hstate <;> simp [hstate, LeaseState.isLive]

section Step
variable {c c' : Cluster} {id : LeaseId} {lease : Lease} {command : Command}

theorem finished_kept (h : LeasesWellFormed c.leases) (hstep : Step c command c')
    (hlease : c.leases[id]? = some lease) (hfinished : lease.state.isLive = false)
    (hspared : lease.state = .completed → c.reaches id command = false) :
    c'.leases[id]? = some lease := by
  have hkeeps : c.reaches id command → endedKeeps lease.state := by
    intro hreaches
    rw [endedKeeps_eq, hfinished]
    simp only [Bool.not_false, Bool.true_and, bne_iff_ne, ne_eq]
    intro hcompleted
    rw [hspared hcompleted] at hreaches
    cases hreaches
  obtain ⟨after, hafter, hmoved⟩ := (leases_step h hstep).kept id lease hlease
  rw [hafter]
  cases hmoved with
  | kept => rfl
  | advanced hadvanced => exact absurd hadvanced.from_live (by simp [hfinished])
  | released _ _ hstate =>
    rcases hstate with hstate | hstate <;> simp [hstate, LeaseState.isLive] at hfinished
  | ended hended =>
    obtain ⟨rfl, rfl, hreaches⟩ := hended.last_of_finished hfinished
    rw [endLease_of_keeps (hkeeps hreaches)]
  | descended htop hended hbelow =>
    rcases hended.keeps_cases with ⟨rfl, -⟩ | ⟨rfl, -, hreaches⟩
    · have hkept : completedKeeps lease.state := by simp [completedKeeps_eq, hfinished]
      rw [endLease_of_keeps hkept]
    · rw [endLease_of_keeps (hkeeps (hreaches id hbelow htop))]
  | lost hcommand hack hholder =>
    have hreaches : c.reaches id command := by
      simp [hcommand, reaches, hack, hholder]
    rw [endLease_of_keeps (hkeeps hreaches)]

theorem completed_lost (h : WellFormed c) (hlease : c.leases[id]? = some lease)
    (hcompleted : lease.state = .completed) (hreaches : c.reaches id command) :
    ∃ c', Step c command c' ∧
      ∃ next, c'.leases[id]? = some next ∧ next.state ≠ .completed := by
  have hends : ∀ {top : LeaseId} {topLease : Lease} {final : LeaseState} {last : Lease → Lease},
      c.leases[top]? = some topLease → final ≠ .completed →
      Ended c top topLease command endedKeeps final last →
      ((id = top ∧ last = endLease endedKeeps final) ∨ (id ≠ top ∧ id ∈ c.descendantsPostorder top)) →
      ∃ c', Step c command c' ∧
        ∃ next, c'.leases[id]? = some next ∧ next.state ≠ .completed := by
    intro top topLease final last htop hfinal hended hplace
    refine ⟨_, .finish htop hended, endLease endedKeeps final lease, ?_, ?_⟩
    · simp only [get_endTree h.leases, hlease]
      rcases hplace with ⟨rfl, rfl⟩ | ⟨hne, hbelow⟩
      · simp
      · simp [hne, hbelow]
    · simp [endLease, hcompleted, endedKeeps, hfinal]
  have hknown : ∀ {top : LeaseId}, id ∈ c.descendantsPostorder top →
      ∃ topLease, c.leases[top]? = some topLease := by
    intro top hbelow
    cases htop : c.leases[top]? with
    | some topLease => exact ⟨topLease, rfl⟩
    | none => simp [descendantsPostorder_of_unknown h.leases htop] at hbelow
  have hself : ∀ {top : LeaseId}, id ∈ c.descendantsPostorder top → id ≠ top := by
    rintro top hbelow rfl
    exact not_mem_own_descendants h.leases id hbelow
  cases command with
  | failLease top reason =>
    simp only [reaches, Bool.or_eq_true, decide_eq_true_eq] at hreaches
    rcases hreaches with rfl | hbelow
    · exact hends hlease (by simp) .fail (.inl ⟨rfl, rfl⟩)
    · obtain ⟨topLease, htop⟩ := hknown hbelow
      exact hends htop (by simp) .fail (.inr ⟨hself hbelow, hbelow⟩)
  | revokeLease top =>
    simp only [reaches, Bool.or_eq_true, decide_eq_true_eq] at hreaches
    rcases hreaches with rfl | hbelow
    · exact hends hlease (by simp) .revoke (.inl ⟨rfl, rfl⟩)
    · obtain ⟨topLease, htop⟩ := hknown hbelow
      exact hends htop (by simp) .revoke (.inr ⟨hself hbelow, hbelow⟩)
  | expireLease top =>
    simp only [reaches, Bool.and_eq_true, decide_eq_true_eq] at hreaches
    obtain ⟨hdue, hbelow⟩ := hreaches
    obtain ⟨topLease, htop⟩ := hknown hbelow
    simp only [htop, Option.any_some, Bool.and_eq_true, Bool.or_eq_true, decide_eq_true_eq] at hdue
    obtain ⟨hlive, hdue⟩ := hdue
    have hclock : c.replaying = false → topLease.expiresAt ≤ c.now := by
      intro hreplaying
      simpa [hreplaying] using hdue
    exact hends htop (by simp) (.expire hlive hclock) (.inr ⟨hself hbelow, hbelow⟩)
  | recordBindingFailed bindingId session reason fence =>
    simp only [reaches] at hreaches
    cases hack : c.acknowledged bindingId session fence with
    | error e => simp [hack] at hreaches
    | ok binding =>
      simp only [hack, decide_eq_true_eq] at hreaches
      subst hreaches
      refine ⟨_, .lose hack hlease, endLease endedKeeps .failed lease, ?_, ?_⟩
      · simp only [OrdMap.get_modify, hlease, if_true, Option.map_some]
      · simp [endLease, hcompleted, endedKeeps]
  | _ => simp [reaches] at hreaches

end Step

/-! Runs. -/

theorem outcome_iff {c : Cluster} {id : LeaseId} {end_ : LeaseState × Option Int32} :
    c.outcome id = some end_ ↔
      ∃ lease, c.leases[id]? = some lease ∧ (lease.state, lease.exitCode) = end_ := by
  simp [outcome]

/-- One event keeps the outcome of a finished lease exactly when it does not
overwrite it. -/
theorem outcome_event_iff (events : List Event) (event : Event) {id : LeaseId} {lease : Lease}
    (hlease : (run events).leases[id]? = some lease) (hfinished : lease.state.isLive = false) :
    (run (events ++ [event])).outcome id = some (lease.state, lease.exitCode) ↔
      (run events).overwrites id event = false := by
  have hwell := wellFormed_run events
  have htables : OfTables fun c => c.outcome id = some (lease.state, lease.exitCode) :=
    fun _ _ _ _ _ h => h
  rw [← Bool.not_eq_true]
  refine (taken_run events event).keeps_iff htables (outcome_iff.mpr ⟨lease, hlease, rfl⟩)
    ?_ fun hover => ?_
  · rintro command next rfl hstep hspared
    simp only [overwrites, hlease, Option.any_some, Bool.not_eq_true, Bool.and_eq_false_iff,
      decide_eq_false_iff_not] at hspared
    exact outcome_iff.mpr ⟨lease, finished_kept hwell.leases hstep hlease hfinished
      fun hcompleted => hspared.resolve_left (fun hne => hne hcompleted), rfl⟩
  · cases event with
    | apply command =>
      simp only [overwrites, hlease, Option.any_some, Bool.and_eq_true, decide_eq_true_eq] at hover
      obtain ⟨next, hstep, changed, hchanged, hne⟩ := completed_lost hwell hlease hover.1 hover.2
      refine ⟨command, next, rfl, hstep, fun hkept => ?_⟩
      obtain ⟨found, hfound, heq⟩ := outcome_iff.mp hkept
      rw [hchanged] at hfound
      cases hfound
      simp only [Prod.mk.injEq, hover.1] at heq
      exact hne heq.1
    | _ => simp [overwrites] at hover

/-- From any reachable cluster on, the outcome of a finished lease stays what it
is all along a run exactly when no event of the run overwrites it. -/
theorem finished_outcome_kept_iff (before after : List Event) (id : LeaseId) (lease : Lease)
    (hlease : (run before).leases[id]? = some lease) (hfinished : lease.state.isLive = false) :
    (∀ reached, reached <+: after →
      (run (before ++ reached)).outcome id = some (lease.state, lease.exitCode)) ↔
      Runs.Along take (fun c event => c.overwrites id event = false) (run before) after := by
  have hrun : ∀ events, run (before ++ events) = Runs.run take (run before) events :=
    fun events => Runs.run_append before events
  have hstart : (run before).outcome id = some (lease.state, lease.exitCode) :=
    outcome_iff.mpr ⟨lease, hlease, rfl⟩
  simp only [hrun]
  refine @Runs.forall_prefix_iff_along _ _ take (run before) _
    (fun c : Cluster => c.outcome id = some (lease.state, lease.exitCode)) hstart
    (fun events event hkept => ?_) after
  rw [← hrun] at hkept ⊢
  rw [← hrun, ← List.append_assoc]
  obtain ⟨now, hnow, heq⟩ := outcome_iff.mp hkept
  simp only [Prod.mk.injEq] at heq
  have hevent := outcome_event_iff (before ++ events) event hnow (heq.1 ▸ hfinished)
  rwa [heq.1, heq.2] at hevent

/-- A task that runs to completion on the gpu. -/
def Sample.completed : List Event := Sample.running .exclusive ++ [.apply (.completeLease 1 0)]

theorem completed_lease_rewritten :
    ¬∀ (events : List Event) (id : LeaseId) (lease : Lease) (command : Command),
      (run events).leases[id]? = some lease → lease.state.isLive = false →
      (run (events ++ [.apply command])).outcome id = some (lease.state, lease.exitCode) := by
  intro h
  have hcompleted : (run Sample.completed).outcome 1 = some (.completed, some 0) := by
    decide +kernel
  have hfailed : (run (Sample.completed ++ [.apply (.failLease 1 "machine unhealthy")])).outcome 1 =
      some (.failed, some 0) := by
    decide +kernel
  obtain ⟨lease, hlease, heq⟩ := outcome_iff.mp hcompleted
  simp only [Prod.mk.injEq] at heq
  have hkept := h Sample.completed 1 lease (.failLease 1 "machine unhealthy") hlease
    (by rw [heq.1]; rfl)
  rw [hfailed, heq.1] at hkept
  simp at hkept

/-- A late release acknowledgement reaches no lease, so the outcome stands. -/
theorem completed_outcome_stands :
    (run (Sample.completed ++ [.apply (.recordBindingReleased 1 1 1)])).outcome 1 =
      some (.completed, some 0) := by
  have hcompleted : (run Sample.completed).outcome 1 = some (.completed, some 0) := by
    decide +kernel
  obtain ⟨lease, hlease, heq⟩ := outcome_iff.mp hcompleted
  simp only [Prod.mk.injEq] at heq
  have hkept := (finished_outcome_kept_iff Sample.completed
    [.apply (.recordBindingReleased 1 1 1)] 1 lease hlease (by rw [heq.1]; rfl)).mpr
    (by decide +kernel)
  have hreached := hkept _ List.prefix_rfl
  rwa [heq.1, heq.2] at hreached

end Archon.Kernel.Cluster
