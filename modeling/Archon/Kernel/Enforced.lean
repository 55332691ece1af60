import Archon.Kernel.Prepared

/-! Failed bindings. A provider's failure report fails the lease with its
binding; the controller's own report marks the binding and leaves the lease, so
it can leave an active lease without enforcement. No lease gets past a failed
binding later on, since a binding never returns to preparing. -/
namespace Archon.Kernel.Cluster
open Fallible

/-- No active lease has a failed binding. -/
def Enforced (leases : OrdMap LeaseId Lease) (bindings : OrdMap BindingId Binding) : Prop :=
  ∀ (id : BindingId) (binding : Binding) (lease : Lease), bindings[id]? = some binding →
    leases[binding.lease]? = some lease → binding.state = .failed → lease.state ≠ .active

/-- Whether an event is the controller's failure report on an open binding of an
active lease. -/
def losesEnforcement (c : Cluster) : Event → Bool
  | .apply (.failBinding id _) => c.bindings[id]?.any fun binding =>
      !binding.state.isClosed && c.leases[binding.lease]?.any fun lease => lease.state = .active
  | _ => false

section Step
variable {c c' : Cluster} {command : Command}

theorem lost_lease (h : WellFormed c) {id : BindingId} {session fence : UInt64} {reason : String}
    {binding : Binding} (hack : c.acknowledged id session fence = .ok binding)
    (hstep : Step c (.recordBindingFailed id session reason fence) c') :
    c'.leases = c.leases.modify binding.lease (endLease endedKeeps .failed) := by
  obtain ⟨holder, hholder, -⟩ := h.bindings.held (acknowledged_ok.mp hack).1
  rw [hstep.unique (.lose hack hholder)]

theorem endLease_not_active {lease : Lease} :
    (endLease endedKeeps .failed lease).state ≠ .active := by
  unfold endLease
  cases hstate : lease.state <;> simp [endedKeeps, hstate]

theorem failed_origin (hstep : Step c command c') {id : BindingId} {after : Binding}
    (hafter : c'.bindings[id]? = some after) (hfailed : after.state = .failed) :
    ∃ binding, c.bindings[id]? = some binding ∧ binding.lease = after.lease ∧
      (binding.state = .failed ∨
        (∃ reason, command = .failBinding id reason ∧ binding.state.isClosed = false) ∨
        ∃ session reason fence, command = .recordBindingFailed id session reason fence ∧
          c.acknowledged id session fence = .ok binding) := by
  rcases (bindings_step hstep).origin hafter with ⟨binding, hbinding, hmoved⟩ | ⟨-, hfresh⟩
  · refine ⟨binding, hbinding, hmoved.moves.lease.symm, ?_⟩
    cases hmoved with
    | kept => exact .inl hfailed
    | rebound hrebound =>
      cases hrebound with
      | fail hopen => exact .inr (.inl ⟨_, rfl, hopen⟩)
      | activate => simp at hfailed
      | prepared => exact .inl hfailed
      | active => exact .inl hfailed
      | released => simp at hfailed
      | fenced => simp at hfailed
      | rebind => exact .inl hfailed
    | lost hcommand hack => exact .inr (.inr ⟨_, _, _, hcommand, hack⟩)
  · simp [hfresh.state] at hfailed

theorem left_preparing_step (hstep : Step c command c') {id : BindingId} {binding : Binding}
    (hbinding : c.bindings[id]? = some binding) (hleft : binding.state ≠ .preparing) :
    ∃ after, c'.bindings[id]? = some after ∧ after.lease = binding.lease ∧
      after.state ≠ .preparing := by
  obtain ⟨after, hafter, hmoved⟩ := (bindings_step hstep).kept id binding hbinding
  refine ⟨after, hafter, hmoved.moves.lease, ?_⟩
  cases hmoved with
  | kept => exact hleft
  | rebound hrebound =>
    cases hrebound with
    | activate _ _ hstate => exact absurd hstate hleft
    | fail => simp
    | prepared => exact hleft
    | active => exact hleft
    | released => simp
    | fenced => simp
    | rebind => exact hleft
  | lost =>
    simp only
    split
    · exact hleft
    · simp

theorem enforced_step (h : WellFormed c) (henforced : Enforced c.leases c.bindings)
    (hstep : Step c command c') (hspared : c.losesEnforcement (.apply command) = false) :
    Enforced c'.leases c'.bindings := by
  intro id after lease' hafter hlease' hfailed hactive
  obtain ⟨binding, hbinding, hholder, hcause⟩ := failed_origin hstep hafter hfailed
  obtain ⟨lease, hlease, -, hbefore⟩ := active_origin h hstep hlease' hactive
  rw [← hholder] at hlease hlease' hbefore
  rcases hbefore with hstands | ⟨rfl, hchecked⟩
  · rcases hcause with hwas | ⟨reason, rfl, hopen⟩ | ⟨session, reason, fence, rfl, hack⟩
    · exact henforced id binding lease hbinding hlease hwas hstands
    · simp [losesEnforcement, hbinding, hopen, hlease, hstands] at hspared
    · rw [lost_lease h hack hstep, OrdMap.get_modify, if_pos rfl, hlease] at hlease'
      cases hlease'
      exact endLease_not_active hactive
  · obtain ⟨hpreparing, -⟩ := (requirePrepared_ok h.bindings hchecked).1 id binding hbinding rfl
    rcases hcause with hwas | ⟨reason, hcommand, -⟩ | ⟨session, reason, fence, hcommand, -⟩
    · simp [hpreparing] at hwas
    · cases hcommand
    · cases hcommand

theorem losesEnforcement_step (hloses : c.losesEnforcement (.apply command)) :
    ∃ c', Step c command c' ∧ ¬Enforced c'.leases c'.bindings := by
  cases command with
  | failBinding id reason =>
    simp only [losesEnforcement, Option.any_eq_true, Bool.and_eq_true, Bool.not_eq_true',
      decide_eq_true_eq] at hloses
    obtain ⟨binding, hbinding, hopen, lease, hlease, hactive⟩ := hloses
    refine ⟨_, .rebind hbinding (.fail hopen), fun henforced => ?_⟩
    refine henforced id { binding with state := .failed } lease ?_ hlease rfl hactive
    simp only [OrdMap.get_modify, if_true, hbinding, Option.map_some]
  | _ => simp [losesEnforcement] at hloses

end Step

/-! Runs. -/

theorem left_preparing_run (before after : List Event) {id : BindingId} {binding : Binding}
    (hbinding : (run before).bindings[id]? = some binding) (hleft : binding.state ≠ .preparing) :
    ∃ later, (run (before ++ after)).bindings[id]? = some later ∧ later.lease = binding.lease ∧
      later.state ≠ .preparing := by
  refine @run_related (fun c c' => ∀ (id : BindingId) (binding : Binding),
    c.bindings[id]? = some binding → binding.state ≠ .preparing →
    ∃ later, c'.bindings[id]? = some later ∧ later.lease = binding.lease ∧
      later.state ≠ .preparing) (fun c id binding hbinding hleft => ⟨binding, hbinding, rfl, hleft⟩)
    (fun _ _ _ _ _ _ h => h) (fun c events command c' hstep h id binding hbinding hleft => ?_)
    before after id binding hbinding hleft
  obtain ⟨later, hlater, hholder, hstill⟩ := h id binding hbinding hleft
  obtain ⟨last, hlast, hholder', hstill'⟩ := left_preparing_step hstep hlater hstill
  exact ⟨last, hlast, hholder'.trans hholder, hstill'⟩

theorem enforced_event_iff (events : List Event) (event : Event)
    (h : Enforced (run events).leases (run events).bindings) :
    Enforced (run (events ++ [event])).leases (run (events ++ [event])).bindings ↔
      (run events).losesEnforcement event = false := by
  rw [← Bool.not_eq_true]
  refine @Taken.keeps_iff (fun c => Enforced c.leases c.bindings) (fun _ _ _ _ _ h => h) _ _ _ _
    (taken_run events event) h ?_ fun hloses => ?_
  · rintro command next rfl hstep hspared
    exact enforced_step (wellFormed_run events) h hstep (Bool.not_eq_true _ ▸ hspared)
  · cases event with
    | apply command =>
      obtain ⟨next, hstep, hlost⟩ := losesEnforcement_step hloses
      exact ⟨command, next, rfl, hstep, hlost⟩
    | _ => simp [losesEnforcement] at hloses

/-- A lease that becomes active has only bindings that never left preparing. -/
theorem activation_over_preparing (before : List Event) (event : Event) {id : LeaseId}
    {lease after : Lease} (hlease : (run before).leases[id]? = some lease)
    (hbefore : lease.state ≠ .active)
    (hafter : (run (before ++ [event])).leases[id]? = some after) (hactive : after.state = .active)
    {bindingId : BindingId} {binding : Binding}
    (hbinding : (run before).bindings[bindingId]? = some binding) (hholder : binding.lease = id) :
    binding.state = .preparing := by
  have hwell := wellFormed_run before
  have htaken := taken_run before event
  generalize run (before ++ [event]) = reached at htaken hafter
  have hsame : (run before).leases[id]? ≠ some after := by
    rw [hlease]
    rintro heq
    cases heq
    exact hbefore hactive
  cases htaken with
  | accepted hstep =>
    obtain ⟨-, hchecked⟩ := activated_prepared hwell.leases hstep hlease hafter hactive hbefore
    exact ((requirePrepared_ok hwell.bindings hchecked).1 bindingId binding hbinding hholder).1
  | refused => exact absurd hafter hsame
  | clock => exact absurd hafter hsame
  | agreement => exact absurd hafter hsame
  | epoch => exact absurd hafter hsame

/-- No state of a run has an active lease over a failed binding, and no lease
becomes active after one of its bindings has failed, exactly when the run never
takes the controller's failure report on an open binding of an active lease. -/
theorem no_active_over_failed_iff (events : List Event) :
    ((∀ reached, reached <+: events → ∀ (id : LeaseId) (lease : Lease) (bindingId : BindingId)
        (binding : Binding), (run reached).leases[id]? = some lease →
        (run reached).bindings[bindingId]? = some binding → binding.lease = id →
        binding.state = .failed → lease.state ≠ .active) ∧
      ∀ (failed later : List Event) (event : Event), failed ++ later ++ [event] <+: events →
        ∀ (id : LeaseId) (lease after : Lease) (bindingId : BindingId) (binding : Binding),
        (run failed).bindings[bindingId]? = some binding → binding.lease = id →
        binding.state = .failed → (run (failed ++ later)).leases[id]? = some lease →
        lease.state ≠ .active → (run (failed ++ later ++ [event])).leases[id]? = some after →
        after.state ≠ .active) ↔
      Runs.Along take (fun c event => c.losesEnforcement event = false) new events := by
  have hstart : Enforced new.leases new.bindings := by
    intro id binding lease hbinding
    simp [new] at hbinding
  have hall : (∀ reached, reached <+: events →
      Enforced (run reached).leases (run reached).bindings) ↔
      Runs.Along take (fun c event => c.losesEnforcement event = false) new events :=
    @Runs.forall_prefix_iff_along _ _ take new (fun c event => c.losesEnforcement event = false)
      (fun c => Enforced c.leases c.bindings) hstart enforced_event_iff events
  rw [← hall]
  constructor
  · rintro ⟨h, -⟩ reached hreached id binding lease hbinding hlease hfailed
    exact h reached hreached _ lease id binding hlease hbinding rfl hfailed
  · intro h
    constructor
    · rintro reached hreached _ lease bindingId binding hlease hbinding rfl hfailed
      exact h reached hreached bindingId binding lease hbinding hlease hfailed
    · intro failed later event _ id lease after bindingId binding hbinding hholder hfailed hlease
        hbefore hafter hactive
      obtain ⟨now, hnow, hholder', hleft⟩ := left_preparing_run failed later hbinding (by simp [hfailed])
      exact hleft (activation_over_preparing _ event hlease hbefore hafter hactive hnow
        (hholder'.trans hholder))

theorem controller_failure_leaves_lease_active :
    ¬∀ (events : List Event) (id : LeaseId) (lease : Lease) (bindingId : BindingId)
      (binding : Binding), (run events).leases[id]? = some lease →
      (run events).bindings[bindingId]? = some binding → binding.lease = id →
      binding.state = .failed → lease.state ≠ .active := by
  intro h
  have hlease : (run (Sample.running .exclusive ++ [.apply (.failBinding 1 "device reset")])).leases[
      (1 : LeaseId)]?.map Lease.state = some .active := by
    decide +kernel
  have hbinding : (run (Sample.running .exclusive ++
      [.apply (.failBinding 1 "device reset")])).bindings[(1 : BindingId)]?.map
      (fun binding => (binding.lease, binding.state)) = some (1, .failed) := by
    decide +kernel
  obtain ⟨lease, hfound, hactive⟩ := Option.map_eq_some_iff.mp hlease
  obtain ⟨binding, hheld, heq⟩ := Option.map_eq_some_iff.mp hbinding
  simp only [Prod.mk.injEq] at heq
  exact h _ 1 lease 1 binding hfound hheld heq.1 heq.2 hactive

end Archon.Kernel.Cluster
