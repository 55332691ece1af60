import Archon.Kernel.Outcome

/-! Delegated authority. Every operation that ends a lease deals with its whole
delegation tree, except the provider's failure report: it fails the lease of the
binding and leaves the children of that lease alone. -/
namespace Archon.Kernel.Cluster
open Fallible

/-- Every live lease with a parent has an active parent. -/
def Delegated (c : Cluster) : Prop :=
  ∀ (id : LeaseId) (lease : Lease), c.leases[id]? = some lease → lease.state.isLive →
    ∀ p, lease.parent = some p → ∃ parent, c.leases[p]? = some parent ∧ parent.state = .active

/-- The form that survives a provider failure: a parent that is not active any
more has no parent of its own. -/
def WeaklyDelegated (c : Cluster) : Prop :=
  ∀ (id : LeaseId) (lease : Lease), c.leases[id]? = some lease → lease.state.isLive →
    ∀ p, lease.parent = some p →
      ∃ parent, c.leases[p]? = some parent ∧ (parent.state = .active ∨ parent.parent = none)

/-- Whether an event fails an active lease under a live child. -/
def strands (c : Cluster) : Event → Bool
  | .apply (.recordBindingFailed id session _ fence) =>
    match c.acknowledged id session fence with
    | .ok binding =>
      c.leases[binding.lease]?.any (fun lease => lease.state = .active) &&
        (OrdMap.vals c.leases).any fun child =>
          child.parent = some binding.lease && child.state.isLive
    | .error _ => false
  | _ => false

theorem Ended.endLease_not_live {c : Cluster} {id : LeaseId} {lease : Lease} {command : Command}
    (h : Ended c id lease command keeps final last) (before : Lease) :
    (endLease keeps final before).state.isLive = false := by
  have hkeeps : keeps before.state → before.state.isLive = false := by
    rcases h.keeps_cases with ⟨rfl, -⟩ | ⟨rfl, -, -⟩
    · simp [completedKeeps_eq]
    · simp only [endedKeeps_eq, Bool.and_eq_true, Bool.not_eq_true']
      exact fun hk => hk.1
  unfold endLease
  split
  · rename_i hk
    exact hkeeps hk
  · exact h.terminal.1

section Step
variable {c c' : Cluster} {command : Command}

theorem child_origin (h : LeasesWellFormed c.leases) (hstep : Step c command c') {id p : LeaseId}
    {after : Lease} (hafter : c'.leases[id]? = some after) (hlive : after.state.isLive)
    (hparent : after.parent = some p) :
    (Admitted c command after ∧ ∃ parent, c.leases[p]? = some parent ∧ parent.state = .active) ∨
      ∃ lease, c.leases[id]? = some lease ∧ lease.state.isLive ∧ lease.parent = some p := by
  rcases (leases_evolve h hstep).origin hafter with ⟨lease, hlease, hmoves⟩ | ⟨-, -, hadmitted⟩
  · exact .inr ⟨lease, hlease, hmoves.live hlive, hmoves.parent ▸ hparent⟩
  · obtain ⟨parent, hp, hactive, -⟩ := hadmitted.child hparent
    exact .inl ⟨hadmitted, parent, hp, hactive⟩

theorem parent_kept (h : WellFormed c) (hstep : Step c command c') {id p : LeaseId}
    {after parent : Lease} (hafter : c'.leases[id]? = some after) (hlive : after.state.isLive)
    (hparent : after.parent = some p) (hp : c.leases[p]? = some parent)
    (hactive : parent.state = .active) :
    (∃ next, c'.leases[p]? = some next ∧ next.state = .active) ∨
      ∃ bindingId session reason fence binding,
        command = .recordBindingFailed bindingId session reason fence ∧
          c.acknowledged bindingId session fence = .ok binding ∧ binding.lease = p := by
  have horigin := child_origin h.leases hstep hafter hlive hparent
  cases hstep with
  | enter _ hfresh _ =>
    refine .inl ⟨parent, ?_, hactive⟩
    rw [OrdMap.get_insert]
    split
    · rename_i hid
      rw [hid, hp] at hfresh
      cases hfresh
    · exact hp
  | @advance _ moved movedLease move _ hmoved hadvanced =>
    left
    by_cases hid : moved = p
    · subst hid
      rw [hp] at hmoved
      cases hmoved
      cases hadvanced with
      | promote hstate => simp [hactive] at hstate
      | activate hstate => simp [hactive] at hstate
      | @renew expiresAt => exact ⟨{ parent with expiresAt }, by simp [hp], hactive⟩
    · exact ⟨parent, by simp [OrdMap.get_modify, hid, hp], hactive⟩
  | @release top topLease hdead htop hstate =>
    left
    by_cases hid : top = p
    · -- the child would be a live descendant, and those block the release
      subst hid
      obtain ⟨hadmitted, -⟩ | ⟨lease, hlease, hbefore, hunder⟩ := horigin
      · cases hadmitted
      have hchild : id ∈ c.liveDescendants top := by
        simp only [liveDescendants, List.mem_filter, hlease, Option.any_some]
        refine ⟨mem_descendants_of_parent h.leases hlease hunder (.inl rfl), ?_⟩
        simp [occupies, h.leases.key hlease, hlease, leaseOccupies, hbefore]
      simp [hdead] at hchild
    · exact ⟨parent, by simp [OrdMap.get_modify, hid, hp], hactive⟩
  | @finish _ keeps final last top topLease htop hended =>
    -- a live lease lies outside the ended tree, and so does its parent
    left
    have houtside : ¬(p = top ∨ p ∈ c.descendantsPostorder top) := by
      intro hin
      obtain ⟨hadmitted, -⟩ | ⟨lease, hlease, -, hunder⟩ := horigin
      · cases hended <;> cases hadmitted
      have hbelow := mem_descendants_of_parent h.leases hlease hunder hin
      have hne : id ≠ top := by
        rintro rfl
        exact not_mem_own_descendants h.leases id hbelow
      simp only [get_endTree h.leases, hne, if_false, hbelow, if_true, hlease, Option.map_some,
        Option.some.injEq] at hafter
      subst hafter
      rw [hended.endLease_not_live] at hlive
      cases hlive
    rw [not_or] at houtside
    exact ⟨parent, by simp [get_endTree h.leases, houtside.1, houtside.2, hp], hactive⟩
  | @lose session fence reason bindingId binding _ hack _ =>
    by_cases hid : binding.lease = p
    · exact .inr ⟨bindingId, session, reason, fence, binding, rfl, hack, hid⟩
    · exact .inl ⟨parent, by simp [OrdMap.get_modify, hid, hp], hactive⟩
  | retry | install | annotate | bind | rebind | hello | restate | raise =>
    exact .inl ⟨parent, hp, hactive⟩

theorem weaklyDelegated_step (h : WellFormed c) (hdelegated : WeaklyDelegated c)
    (hstep : Step c command c') : WeaklyDelegated c' := by
  intro id after hafter hlive p hparent
  have hbefore : ∃ parent, c.leases[p]? = some parent ∧
      (parent.state = .active ∨ parent.parent = none) := by
    rcases child_origin h.leases hstep hafter hlive hparent with
      ⟨-, parent, hp, hactive⟩ | ⟨lease, hlease, hwaslive, hunder⟩
    · exact ⟨parent, hp, .inl hactive⟩
    · exact hdelegated id lease hlease hwaslive p hunder
  obtain ⟨parent, hp, hstands⟩ := hbefore
  obtain ⟨next, hnext, hmoves⟩ := (leases_evolve h.leases hstep).kept p parent hp
  rcases hstands with hactive | hroot
  · rcases parent_kept h hstep hafter hlive hparent hp hactive with
      ⟨kept, hkept, hstill⟩ | ⟨bindingId, _, _, _, binding, -, hack, hlost⟩
    · exact ⟨kept, hkept, .inl hstill⟩
    · -- the lease of a binding has no parent
      obtain ⟨holder, hholder, hroot, -⟩ := h.bindings.held (acknowledged_ok.mp hack).1
      rw [hlost, hp] at hholder
      cases hholder
      exact ⟨next, hnext, .inr (hmoves.parent ▸ hroot)⟩
  · exact ⟨next, hnext, .inr (hmoves.parent ▸ hroot)⟩

/-- A step that strands nobody keeps every parent active. -/
theorem delegated_step (h : WellFormed c) (hdelegated : Delegated c) (hstep : Step c command c')
    (hspared : c.strands (.apply command) = false) : Delegated c' := by
  intro id after hafter hlive p hparent
  have horigin := child_origin h.leases hstep hafter hlive hparent
  have hbefore : ∃ parent, c.leases[p]? = some parent ∧ parent.state = .active := by
    rcases horigin with ⟨-, parent, hp, hactive⟩ | ⟨lease, hlease, hwaslive, hunder⟩
    · exact ⟨parent, hp, hactive⟩
    · exact hdelegated id lease hlease hwaslive p hunder
  obtain ⟨parent, hp, hactive⟩ := hbefore
  rcases parent_kept h hstep hafter hlive hparent hp hactive with
    hkept | ⟨bindingId, session, reason, fence, binding, rfl, hack, rfl⟩
  · exact hkept
  · obtain ⟨hadmitted, -⟩ | ⟨lease, hlease, hwaslive, hunder⟩ := horigin
    · cases hadmitted
    simp only [strands, hack, hp, Option.any_some, hactive, decide_true, Bool.true_and,
      List.any_eq_false, OrdMap.mem_vals] at hspared
    simpa [hunder, hwaslive] using hspared lease ⟨id, hlease⟩

theorem strands_step (h : WellFormed c) (hstrands : c.strands (.apply command)) :
    ∃ c', Step c command c' ∧ ¬Delegated c' := by
  cases command with
  | recordBindingFailed bindingId session reason fence =>
    cases hack : c.acknowledged bindingId session fence with
    | error e => simp [strands, hack] at hstrands
    | ok binding =>
      obtain ⟨holder, hholder, hroot, -⟩ := h.bindings.held (acknowledged_ok.mp hack).1
      simp only [strands, hack, hholder, Option.any_some, Bool.and_eq_true, decide_eq_true_eq,
        List.any_eq_true, OrdMap.mem_vals] at hstrands
      obtain ⟨hactive, child, ⟨id, hchild⟩, hunder, hlive⟩ := hstrands
      have hne : binding.lease ≠ id := by
        rintro rfl
        rw [hholder] at hchild
        cases hchild
        simp [hroot] at hunder
      refine ⟨_, .lose hack hholder, fun hdelegated => ?_⟩
      obtain ⟨parent, hp, hstill⟩ := hdelegated id child
        (by simp [OrdMap.get_modify, hne, hchild]) hlive binding.lease hunder
      simp only [OrdMap.get_modify, if_true, hholder, Option.map_some, Option.some.injEq] at hp
      subst hp
      simp [endLease, hactive, endedKeeps] at hstill
  | _ => simp [strands] at hstrands

end Step

/-! Runs. -/

theorem weaklyDelegated_run (events : List Event) : WeaklyDelegated (run events) := by
  refine run_invariant ?_ (fun _ _ _ _ _ h => h)
    (fun before _ _ hstep h => weaklyDelegated_step (wellFormed_run before) h hstep) events
  intro id lease hlease
  simp [new] at hlease

theorem delegated_event_iff (events : List Event) (event : Event) (h : Delegated (run events)) :
    Delegated (run (events ++ [event])) ↔ (run events).strands event = false := by
  have hwell := wellFormed_run events
  rw [← Bool.not_eq_true]
  refine (taken_run events event).keeps_iff (fun _ _ _ _ _ h => h) h ?_ fun hstrands => ?_
  · rintro command next rfl hstep hspared
    exact delegated_step hwell h hstep (Bool.not_eq_true _ ▸ hspared)
  · cases event with
    | apply command =>
      obtain ⟨next, hstep, hlost⟩ := strands_step hwell hstrands
      exact ⟨command, next, rfl, hstep, hlost⟩
    | _ => simp [strands] at hstrands

theorem Delegated.ancestors {c : Cluster} (h : LeasesWellFormed c.leases) (hdelegated : Delegated c)
    {id top : LeaseId} {lease : Lease} (hlease : c.leases[id]? = some lease)
    (hlive : lease.state.isLive) (hbelow : Forest.Below c.sortedChildren top id) :
    ∃ ancestor, c.leases[top]? = some ancestor ∧ ancestor.state = .active := by
  induction hbelow using Relation.TransGen.head_induction_on with
  | single hchild =>
    obtain ⟨found, hfound, hparent⟩ := (mem_sortedChildren h).mp hchild
    rw [hlease] at hfound
    cases hfound
    exact hdelegated id lease hlease hlive _ hparent
  | head hchild _ ih =>
    obtain ⟨middle, hmiddle, hactive⟩ := ih
    obtain ⟨found, hfound, hparent⟩ := (mem_sortedChildren h).mp hchild
    rw [hmiddle] at hfound
    cases hfound
    exact hdelegated _ middle hmiddle (by simp [hactive, LeaseState.isLive]) _ hparent

/-- Every state of a run keeps every ancestor of a live lease active exactly
when no event of the run strands a child. -/
theorem delegation_stands_iff (events : List Event) :
    ((∀ reached, reached <+: events → Delegated (run reached)) ↔
      Runs.Along take (fun c event => c.strands event = false) new events) ∧
    ∀ (id top : LeaseId) (lease : Lease), Delegated (run events) →
      (run events).leases[id]? = some lease → lease.state.isLive →
      Forest.Below (run events).sortedChildren top id →
      ∃ ancestor, (run events).leases[top]? = some ancestor ∧ ancestor.state = .active := by
  constructor
  · refine Runs.forall_prefix_iff_along ?_ delegated_event_iff events
    intro id lease hlease
    simp [new] at hlease
  · intro id top lease hdelegated hlease hlive hbelow
    exact hdelegated.ancestors (wellFormed_run events).leases hlease hlive hbelow

/-- The running lease delegates one unit of its gpu to a child. -/
def Sample.family : List Event := Sample.running .exclusive ++ [Sample.openLease 2 1 (some 1)]

theorem provider_failure_strands_child : ¬∀ events : List Event, Delegated (run events) := by
  intro h
  have hchild : (run (Sample.family ++ [.apply (.recordBindingFailed 1 1 "device lost" 1)])).leases[
      (2 : LeaseId)]?.map (fun lease => (lease.state, lease.parent)) = some (.preparing, some 1) := by
    decide +kernel
  have hparent : (run (Sample.family ++ [.apply (.recordBindingFailed 1 1 "device lost" 1)])).outcome
      1 = some (.failed, none) := by
    decide +kernel
  obtain ⟨child, hfound, heq⟩ := Option.map_eq_some_iff.mp hchild
  simp only [Prod.mk.injEq] at heq
  obtain ⟨parent, hp, hactive⟩ := h _ 2 child hfound (by rw [heq.1]; rfl) 1 heq.2
  obtain ⟨failed, hfailed, hend⟩ := outcome_iff.mp hparent
  rw [hp] at hfailed
  cases hfailed
  simp [hactive] at hend

/-- Until then every state of the run has an active parent over the child. -/
theorem family_delegation_stands :
    (∀ reached, reached <+: Sample.family → Delegated (run reached)) ∧
      ∃ ancestor, (run Sample.family).leases[(1 : LeaseId)]? = some ancestor ∧
        ancestor.state = .active := by
  have hstands := (delegation_stands_iff Sample.family).1.mpr (by decide +kernel)
  have hchild : (run Sample.family).leases[(2 : LeaseId)]?.map
      (fun lease => (lease.state, lease.parent)) = some (.preparing, some 1) := by
    decide +kernel
  obtain ⟨child, hfound, heq⟩ := Option.map_eq_some_iff.mp hchild
  simp only [Prod.mk.injEq] at heq
  refine ⟨hstands, (delegation_stands_iff Sample.family).2 2 1 child
    (hstands _ List.prefix_rfl) hfound (by rw [heq.1]; rfl) (.single ?_)⟩
  exact (mem_sortedChildren (wellFormed_run _).leases).mpr ⟨child, hfound, heq.2⟩

end Archon.Kernel.Cluster
