import Archon.Kernel.Teardown

/-! Active means prepared. A lease becomes active only once each of its bindings
carries a provider handle, bindings open only before that, and a binding becomes
active only under an active lease, so no activation has to check the handle. -/
namespace Archon.Kernel.Cluster
open Fallible

section Step
variable {c c' : Cluster} {command : Command}

theorem requirePrepared_ok (h : BindingsWellFormed c.leases c.bindings) {id : LeaseId}
    {parent : Option LeaseId} {claims : List Claim}
    (hok : c.requirePrepared id parent claims = .ok ()) :
    (∀ (bindingId : BindingId) (binding : Binding), c.bindings[bindingId]? = some binding →
      binding.lease = id → binding.state = .preparing ∧ binding.providerHandle.isSome) ∧
    (parent = none → ∀ claim ∈ claims, ∃ (bindingId : BindingId) (binding : Binding),
      c.bindings[bindingId]? = some binding ∧ binding.lease = id ∧ binding.node = claim.node ∧
        binding.providerHandle.isSome) := by
  simp only [requirePrepared, check_bind_ok, refuseIf_ok, check_ite_ok, List.forM_eq_forM, forM_ok] at hok
  obtain ⟨_, hall, hclaims⟩ := hok
  constructor
  · intro bindingId binding hbinding hlease
    simp only [Bool.not_eq_true, List.any_eq_false, List.mem_map, List.mem_filter, OrdMap.mem_vals,
      decide_eq_true_eq, forall_exists_index, and_imp] at hall
    have hprepared := hall bindingId binding bindingId hbinding hlease (h.key hbinding)
    simp only [hbinding, Option.all_some, Bool.or_eq_false_iff] at hprepared
    simpa using hprepared
  · rintro rfl claim hclaim
    rcases hclaims with ⟨-, hclaims⟩ | ⟨hsome, -⟩
    · have hfound := hclaims claim hclaim
      simp only [not_not, List.any_eq_true, OrdMap.mem_vals, Bool.and_eq_true, decide_eq_true_eq,
        isPrepared] at hfound
      obtain ⟨binding, ⟨bindingId, hbinding⟩, ⟨hlease, hnode⟩, -, hhandle⟩ := hfound
      exact ⟨bindingId, binding, hbinding, hlease, hnode, hhandle⟩
    · simp at hsome

theorem activated_prepared (h : LeasesWellFormed c.leases) (hstep : Step c command c')
    {id : LeaseId} {lease after : Lease} (hlease : c.leases[id]? = some lease)
    (hafter : c'.leases[id]? = some after) (hactive : after.state = .active)
    (hbefore : lease.state ≠ .active) : command = .activateLease id ∧
      c.requirePrepared id lease.parent lease.allocation.claims = .ok () := by
  have hended : ∀ {keeps : LeaseState → Bool} {final : LeaseState}, final ≠ .active →
      (endLease keeps final lease).state ≠ .active := by
    intro keeps final hfinal
    unfold endLease
    split
    · exact hbefore
    · exact hfinal
  cases (leases_step h hstep).moved hlease hafter with
  | kept => exact absurd hactive hbefore
  | advanced hadvanced =>
    cases hadvanced with
    | promote => simp at hactive
    | activate _ _ _ _ _ _ hprepared => exact ⟨rfl, hprepared⟩
    | renew => exact absurd hactive hbefore
  | released => simp at hactive
  | ended hends =>
    cases hends with
    | fail => exact absurd hactive (hended (by simp))
    | revoke => exact absurd hactive (hended (by simp))
    | expire => simp at hactive
    | complete =>
      simp only [finalState] at hactive
      split at hactive <;> cases hactive
  | descended _ hends =>
    refine absurd hactive (hended ?_)
    rintro rfl
    simpa [LeaseState.isLive] using hends.terminal.1
  | lost => exact absurd hactive (hended (by simp))

theorem activated_under_active (hstep : Step c command c') {id : BindingId}
    {binding after : Binding} (hbinding : c.bindings[id]? = some binding)
    (hafter : c'.bindings[id]? = some after) (hactive : after.state = .active)
    (hbefore : binding.state ≠ .active) :
    ∃ lease, c.leases[binding.lease]? = some lease ∧ lease.state = .active := by
  cases (bindings_step hstep).moved hbinding hafter with
  | kept => exact absurd hactive hbefore
  | rebound hrebound =>
    cases hrebound with
    | @activate lease hlease hstands => exact ⟨lease, hlease, hstands⟩
    | fail => simp at hactive
    | prepared => exact absurd hactive hbefore
    | active _ hstate => exact absurd hstate hbefore
    | released => simp at hactive
    | fenced => simp at hactive
    | rebind => exact absurd hactive hbefore
  | lost =>
    simp only at hactive
    split at hactive
    · exact absurd hactive hbefore
    · cases hactive

/-- A provider handle is in place wherever something is active. -/
structure Prepared (leases : OrdMap LeaseId Lease) (bindings : OrdMap BindingId Binding) : Prop where
  held : ∀ {id : BindingId} {binding : Binding} {lease : Lease}, bindings[id]? = some binding →
    leases[binding.lease]? = some lease → lease.state = .active → binding.providerHandle.isSome
  active : ∀ {id : BindingId} {binding : Binding}, bindings[id]? = some binding →
    binding.state = .active → binding.providerHandle.isSome
  claimed : ∀ {id : LeaseId} {lease : Lease}, leases[id]? = some lease → lease.state = .active →
    lease.parent = none → ∀ claim ∈ lease.allocation.claims,
      ∃ (bindingId : BindingId) (binding : Binding), bindings[bindingId]? = some binding ∧
        binding.lease = id ∧ binding.node = claim.node ∧ binding.providerHandle.isSome

/-- A lease that is active after the step, and was there before it, was active
already or has all its bindings prepared. -/
theorem active_origin (h : WellFormed c) (hstep : Step c command c') {id : LeaseId} {after : Lease}
    (hafter : c'.leases[id]? = some after) (hactive : after.state = .active) :
    ∃ lease, c.leases[id]? = some lease ∧ lease.Moves after ∧
      (lease.state = .active ∨ (command = .activateLease id ∧
        c.requirePrepared id lease.parent lease.allocation.claims = .ok ())) := by
  rcases (leases_evolve h.leases hstep).origin hafter with ⟨lease, hlease, hmoves⟩ | ⟨-, -, hadmitted⟩
  · refine ⟨lease, hlease, hmoves, ?_⟩
    by_cases hbefore : lease.state = .active
    · exact .inl hbefore
    · exact .inr (activated_prepared h.leases hstep hlease hafter hactive hbefore)
  · cases hadmitted <;> cases hactive

theorem prepared_step (h : WellFormed c) (hprepared : Prepared c.leases c.bindings)
    (hstep : Step c command c') : Prepared c'.leases c'.bindings := by
  have hevolve := bindings_evolve hstep
  constructor
  · intro id after lease' hafter hlease' hactive
    rcases hevolve.origin hafter with ⟨binding, hbinding, hmoves⟩ | ⟨hnone, hfresh⟩
    · obtain ⟨lease, hlease, -, hbefore⟩ := active_origin h hstep hlease' hactive
      rw [hmoves.lease] at hlease hbefore
      refine hmoves.handle ?_
      rcases hbefore with hstands | ⟨-, hchecked⟩
      · exact hprepared.held hbinding hlease hstands
      · exact ((requirePrepared_ok h.bindings hchecked).1 id binding hbinding rfl).2
    · -- a binding opens under a preparing lease, and opening activates nothing
      obtain ⟨holder, hholder, hpreparing, -⟩ := hfresh.lease
      rw [(opened_frame hstep hnone hafter).1, hholder] at hlease'
      cases hlease'
      simp [hpreparing] at hactive
  · intro id after hafter hactive
    rcases hevolve.origin hafter with ⟨binding, hbinding, hmoves⟩ | ⟨-, hfresh⟩
    · refine hmoves.handle ?_
      by_cases hbefore : binding.state = .active
      · exact hprepared.active hbinding hbefore
      · obtain ⟨lease, hlease, hstands⟩ :=
          activated_under_active hstep hbinding hafter hactive hbefore
        exact hprepared.held hbinding hlease hstands
    · simp [hfresh.state] at hactive
  · intro id after hafter hactive hroot claim hclaim
    obtain ⟨lease, hlease, hmoves, hbefore⟩ := active_origin h hstep hafter hactive
    rw [hmoves.parent] at hroot
    rw [hmoves.claims] at hclaim
    have hfound : ∃ (bindingId : BindingId) (binding : Binding),
        c.bindings[bindingId]? = some binding ∧ binding.lease = id ∧ binding.node = claim.node ∧
          binding.providerHandle.isSome := by
      rcases hbefore with hstands | ⟨-, hchecked⟩
      · exact hprepared.claimed hlease hstands hroot claim hclaim
      · exact (requirePrepared_ok h.bindings hchecked).2 hroot claim hclaim
    obtain ⟨bindingId, binding, hbinding, hholds, hnode, hhandle⟩ := hfound
    obtain ⟨next, hnext, hkept⟩ := hevolve.kept bindingId binding hbinding
    exact ⟨bindingId, next, hnext, hkept.lease.trans hholds, hkept.node.trans hnode,
      hkept.handle hhandle⟩

end Step

theorem prepared_run (events : List Event) : Prepared (run events).leases (run events).bindings :=
  @run_invariant (fun c => Prepared c.leases c.bindings) (by constructor <;> simp [new])
    (fun _ _ _ _ _ h => h)
    (fun before _ _ hstep h => prepared_step (wellFormed_run before) h hstep) events

/-- Active means prepared, in every reachable cluster. -/
theorem active_means_prepared (events : List Event) :
    (∀ (id : BindingId) (binding : Binding), (run events).bindings[id]? = some binding →
      binding.state = .active → binding.providerHandle.isSome) ∧
    (∀ (id : LeaseId) (lease : Lease), (run events).leases[id]? = some lease →
      lease.state = .active → lease.parent = none → ∀ claim ∈ lease.allocation.claims,
      ∃ (bindingId : BindingId) (binding : Binding),
        (run events).bindings[bindingId]? = some binding ∧ binding.lease = id ∧
          binding.node = claim.node ∧ binding.providerHandle.isSome) ∧
    ∀ (id : LeaseId) (lease : Lease), (run events).leases[id]? = some lease →
      lease.parent.isSome → ∀ (bindingId : BindingId) (binding : Binding),
        (run events).bindings[bindingId]? = some binding → binding.lease ≠ id := by
  have hprepared := prepared_run events
  refine ⟨fun _ _ => hprepared.active, fun _ _ => hprepared.claimed, ?_⟩
  rintro id lease hlease hchild bindingId binding hbinding rfl
  obtain ⟨holder, hholder, hroot, -⟩ := (wellFormed_run events).bindings.held hbinding
  rw [hlease] at hholder
  cases hholder
  simp [hroot] at hchild

theorem family_prepared :
    (∃ binding, (run Sample.family).bindings[(1 : BindingId)]? = some binding ∧
      binding.providerHandle.isSome) ∧
    (∃ (bindingId : BindingId) (binding : Binding),
      (run Sample.family).bindings[bindingId]? = some binding ∧ binding.lease = 1 ∧
        binding.node = 2 ∧ binding.providerHandle.isSome) ∧
    ∀ binding, (run Sample.family).bindings[(1 : BindingId)]? = some binding →
      binding.lease ≠ 2 := by
  have hbinding : (run Sample.family).bindings[(1 : BindingId)]?.map Binding.state = some .active := by
    decide +kernel
  have hlease : (run Sample.family).leases[(1 : LeaseId)]?.map (fun lease =>
      (lease.state, lease.parent, lease.allocation.claims)) =
      some (.active, none, [⟨2, Sample.units 2⟩]) := by
    decide +kernel
  have hchild : (run Sample.family).leases[(2 : LeaseId)]?.map Lease.parent = some (some 1) := by
    decide +kernel
  obtain ⟨binding, hfound, hstate⟩ := Option.map_eq_some_iff.mp hbinding
  obtain ⟨lease, hholder, heq⟩ := Option.map_eq_some_iff.mp hlease
  obtain ⟨child, hunder, hparent⟩ := Option.map_eq_some_iff.mp hchild
  simp only [Prod.mk.injEq] at heq
  refine ⟨⟨binding, hfound, (active_means_prepared _).1 1 binding hfound hstate⟩, ?_, ?_⟩
  · exact (active_means_prepared _).2.1 1 lease hholder heq.1 heq.2.1 ⟨2, Sample.units 2⟩
      (by simp [heq.2.2])
  · exact (active_means_prepared _).2.2 2 child hunder (by simp [hparent]) 1

end Archon.Kernel.Cluster
