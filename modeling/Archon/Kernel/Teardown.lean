import Archon.Kernel.Delegation

/-! Teardown. A binding closes only on the acknowledgement of its own machine,
under its own fence; a lease occupies while it is live or has an open binding,
and once it has stopped it never occupies again. -/
namespace Archon.Kernel.Cluster
open Fallible

section Occupies
variable {c c' : Cluster} {command : Command}

theorem openBindings_iff {id : LeaseId} :
    c.openBindings id ↔ ∃ (bindingId : BindingId) (binding : Binding),
      c.bindings[bindingId]? = some binding ∧ binding.lease = id ∧
        binding.state.isClosed = false := by
  simp only [openBindings, List.any_eq_true, OrdMap.mem_vals, Bool.and_eq_true, decide_eq_true_eq,
    Bool.not_eq_true']
  constructor
  · rintro ⟨binding, ⟨bindingId, hbinding⟩, hlease, hopen⟩
    exact ⟨bindingId, binding, hbinding, hlease, hopen⟩
  · rintro ⟨bindingId, binding, hbinding, hlease, hopen⟩
    exact ⟨binding, ⟨bindingId, hbinding⟩, hlease, hopen⟩

theorem occupies_iff (h : LeasesWellFormed c.leases) {id : LeaseId} :
    c.occupies id ↔ ∃ lease, c.leases[id]? = some lease ∧
      (lease.state.isLive ∨ c.openBindings id) := by
  unfold occupies
  cases hlease : c.leases[id]? with
  | none => simp
  | some lease => simp [leaseOccupies, h.key hlease]

theorem mem_openBindingLeases {id : LeaseId} : id ∈ c.openBindingLeases ↔ c.openBindings id := by
  simp only [openBindingLeases, openBindings, List.mem_map, List.mem_filter, List.any_eq_true,
    Bool.and_eq_true, decide_eq_true_eq]
  constructor
  · rintro ⟨binding, ⟨hmem, hopen⟩, hlease⟩
    exact ⟨binding, hmem, hlease, hopen⟩
  · rintro ⟨binding, hmem, hlease, hopen⟩
    exact ⟨binding, ⟨hmem, hopen⟩, hlease⟩

theorem occupying_eq {id : LeaseId} {lease : Lease} (hlease : c.leases[id]? = some lease) :
    leaseOccupies lease (lease.id ∈ c.openBindingLeases) = c.occupies id := by
  simp [occupies, hlease, mem_openBindingLeases]

/-- A child has no binding, so it occupies only while it is live. -/
theorem occupies_child_iff (h : WellFormed c) {id p : LeaseId} {lease : Lease}
    (hlease : c.leases[id]? = some lease) (hparent : lease.parent = some p) :
    c.occupies id ↔ lease.state.isLive := by
  rw [occupies_iff h.leases]
  constructor
  · rintro ⟨found, hfound, hlive | hopen⟩
    · rw [hlease] at hfound
      cases hfound
      exact hlive
    · obtain ⟨bindingId, binding, hbinding, rfl, -⟩ := openBindings_iff.mp hopen
      obtain ⟨holder, hholder, hroot, -⟩ := h.bindings.held hbinding
      rw [hlease] at hholder
      cases hholder
      simp [hroot] at hparent
  · exact fun hlive => ⟨lease, hlease, .inl hlive⟩

/-- No step makes a lease occupy again. -/
theorem occupies_step (h : WellFormed c) (hstep : Step c command c') {id : LeaseId} {lease : Lease}
    (hlease : c.leases[id]? = some lease) (hoccupies : c'.occupies id) : c.occupies id := by
  obtain ⟨after, hafter, hholds⟩ :=
    (occupies_iff (leasesWellFormed_step h.leases hstep)).mp hoccupies
  rw [occupies_iff h.leases]
  refine ⟨lease, hlease, ?_⟩
  rcases hholds with hlive | hopen
  · exact .inl (((leases_evolve h.leases hstep).moved hlease hafter).live hlive)
  · obtain ⟨bindingId, binding, hbinding, rfl, hstate⟩ := openBindings_iff.mp hopen
    rcases (bindings_evolve hstep).origin hbinding with ⟨before, hbefore, hmoves⟩ | ⟨-, hfresh⟩
    · right
      exact openBindings_iff.mpr ⟨bindingId, before, hbefore, hmoves.lease.symm,
        hmoves.was_open hstate⟩
    · -- a binding opens only under a lease that is preparing
      obtain ⟨holder, hholder, hpreparing, -⟩ := hfresh.lease
      rw [hlease] at hholder
      cases hholder
      exact .inl (by simp [hpreparing, LeaseState.isLive])

end Occupies

section Closing
variable {c c' : Cluster} {command : Command}

/-- A teardown acknowledgement for the binding, from the current session of
its machine and under its fence. -/
def ProvesTeardown (c : Cluster) (id : BindingId) (binding : Binding) (command : Command) : Prop :=
  ∃ machine session, c.graph.machineOf binding.node = some machine ∧
    c.sessions[machine]? = some session ∧
    (command = .recordBindingReleased id session binding.fence ∨
      command = .recordBindingFenced id session binding.fence)

theorem closing_step (hstep : Step c command c') {id : BindingId} {binding after : Binding}
    (hbinding : c.bindings[id]? = some binding) (hopen : binding.state.isClosed = false)
    (hafter : c'.bindings[id]? = some after) (hclosed : after.state.isClosed) :
    c.ProvesTeardown id binding command := by
  cases (bindings_step hstep).moved hbinding hafter with
  | kept => simp [hopen] at hclosed
  | rebound hrebound =>
    cases hrebound with
    | released hack =>
      obtain ⟨rfl, machine, hmachine, hsession⟩ := acknowledged_routed hack
      exact ⟨machine, _, hmachine, hsession, .inl rfl⟩
    | fenced hack =>
      obtain ⟨rfl, machine, hmachine, hsession⟩ := acknowledged_routed hack
      exact ⟨machine, _, hmachine, hsession, .inr rfl⟩
    | activate => simp [BindingState.isClosed] at hclosed
    | fail => simp [BindingState.isClosed] at hclosed
    | prepared => simp [hopen] at hclosed
    | active => simp [hopen] at hclosed
    | rebind => simp [hopen] at hclosed
  | lost =>
    simp only [hopen, Bool.false_eq_true, if_false] at hclosed
    cases hclosed

end Closing

/-! Runs. -/

/-- What a later cluster owes to an earlier one: every lease and binding is
still there with what it keeps for life, and no lease occupies again. -/
structure Precedes (c c' : Cluster) : Prop where
  lease : ∀ {id : LeaseId} {lease : Lease}, c.leases[id]? = some lease →
    ∃ next, c'.leases[id]? = some next ∧ lease.Moves next
  occupies : ∀ {id : LeaseId} {lease : Lease}, c.leases[id]? = some lease → c'.occupies id →
    c.occupies id
  binding : ∀ {id : BindingId} {binding : Binding}, c.bindings[id]? = some binding →
    ∃ next, c'.bindings[id]? = some next ∧ binding.Moves next

theorem Precedes.refl (c : Cluster) : Precedes c c where
  lease hlease := ⟨_, hlease, .refl _⟩
  occupies _ h := h
  binding hbinding := ⟨_, hbinding, .refl _⟩

theorem Precedes.step {first c c' : Cluster} {command : Command} (h : Precedes first c)
    (hwell : WellFormed c) (hstep : Step c command c') : Precedes first c' where
  lease hlease := by
    obtain ⟨next, hnext, hmoves⟩ := h.lease hlease
    obtain ⟨last, hlast, hmoves'⟩ := (leases_evolve hwell.leases hstep).kept _ next hnext
    exact ⟨last, hlast, hmoves.trans hmoves'⟩
  occupies hlease hoccupies := by
    obtain ⟨next, hnext, -⟩ := h.lease hlease
    exact h.occupies hlease (occupies_step hwell hstep hnext hoccupies)
  binding hbinding := by
    obtain ⟨next, hnext, hmoves⟩ := h.binding hbinding
    obtain ⟨last, hlast, hmoves'⟩ := (bindings_evolve hstep).kept _ next hnext
    exact ⟨last, hlast, hmoves.trans hmoves'⟩

theorem precedes_run (before after : List Event) : Precedes (run before) (run (before ++ after)) :=
  run_related Precedes.refl (fun _ _ _ _ _ _ h => ⟨h.lease, h.occupies, h.binding⟩)
    (fun _ events _ _ hstep h => h.step (wellFormed_run events) hstep) before after

theorem closing_event (events : List Event) (event : Event) {id : BindingId}
    {binding after : Binding} (hbinding : (run events).bindings[id]? = some binding)
    (hopen : binding.state.isClosed = false)
    (hafter : (run (events ++ [event])).bindings[id]? = some after) (hclosed : after.state.isClosed) :
    ∃ command, event = .apply command ∧ (run events).ProvesTeardown id binding command := by
  have htaken := taken_run events event
  generalize run (events ++ [event]) = reached at htaken hafter
  have hsame : (run events).bindings[id]? ≠ some after := by
    intro heq
    rw [hbinding] at heq
    cases heq
    simp [hopen] at hclosed
  cases htaken with
  | accepted hstep => exact ⟨_, rfl, closing_step hstep hbinding hopen hafter hclosed⟩
  | refused => exact absurd hafter hsame
  | clock => exact absurd hafter hsame
  | agreement => exact absurd hafter hsame
  | epoch => exact absurd hafter hsame

/-- Capacity is freed only by proven teardown: a binding closes on a matching
acknowledgement alone and stays closed, and a lease stops occupying once. -/
theorem capacity_freed_by_teardown (events : List Event) :
    (∀ (event : Event) (id : BindingId) (binding after : Binding),
      (run events).bindings[id]? = some binding → binding.state.isClosed = false →
      (run (events ++ [event])).bindings[id]? = some after → after.state.isClosed →
      ∃ machine session, (run events).graph.machineOf binding.node = some machine ∧
        (run events).sessions[machine]? = some session ∧
        (event = .apply (.recordBindingReleased id session binding.fence) ∨
          event = .apply (.recordBindingFenced id session binding.fence))) ∧
    (∀ (later : List Event) (id : BindingId) (binding : Binding),
      (run events).bindings[id]? = some binding → binding.state.isClosed →
      ∃ after, (run (events ++ later)).bindings[id]? = some after ∧ after.state.isClosed) ∧
    ∀ (later last : List Event) (id : LeaseId), (run events).occupies id →
      (run (events ++ later)).occupies id = false →
      (run (events ++ later ++ last)).occupies id = false := by
  refine ⟨?_, ?_, ?_⟩
  · intro event id binding after hbinding hopen hafter hclosed
    obtain ⟨command, rfl, machine, session, hmachine, hsession, hcommand⟩ :=
      closing_event events event hbinding hopen hafter hclosed
    refine ⟨machine, session, hmachine, hsession, ?_⟩
    rcases hcommand with rfl | rfl
    · exact .inl rfl
    · exact .inr rfl
  · intro later id binding hbinding hclosed
    obtain ⟨after, hafter, hmoves⟩ := (precedes_run events later).binding hbinding
    exact ⟨after, hafter, hmoves.closed hclosed⟩
  · intro later last id hoccupies hstopped
    obtain ⟨lease, hlease, -⟩ := (occupies_iff (wellFormed_run events).leases).mp hoccupies
    obtain ⟨next, hnext, -⟩ := (precedes_run events later).lease hlease
    cases hagain : (run (events ++ later ++ last)).occupies id with
    | false => rfl
    | true =>
      rw [(precedes_run (events ++ later) last).occupies hnext hagain] at hstopped
      cases hstopped

/-- The released lease keeps the gpu until its agent has torn the binding down. -/
def Sample.released : List Event := Sample.running .exclusive ++ [.apply (.releaseLease 1)]

theorem released_gpu_torn_down :
    (∃ machine session, (run Sample.released).graph.machineOf 2 = some machine ∧
      (run Sample.released).sessions[machine]? = some session ∧
      (Event.apply (.recordBindingReleased 1 1 1) = .apply (.recordBindingReleased 1 session 1) ∨
        Event.apply (.recordBindingReleased 1 1 1) = .apply (.recordBindingFenced 1 session 1))) ∧
    (∃ after, (run (Sample.released ++ [.apply (.recordBindingReleased 1 1 1)] ++
      [.apply (.recordBindingFailed 1 1 "late" 1)])).bindings[(1 : BindingId)]? = some after ∧
      after.state.isClosed) ∧
    (run (Sample.released ++ [.apply (.recordBindingReleased 1 1 1)] ++
      [.apply (.openBinding 2 1 2 .enforce .exclusive)])).occupies 1 = false := by
  have hopen : (run Sample.released).bindings[(1 : BindingId)]?.map
      (fun binding => (binding.node, binding.fence, binding.state)) = some (2, 1, .active) := by
    decide +kernel
  have hclosed : (run (Sample.released ++ [.apply (.recordBindingReleased 1 1 1)])).bindings[
      (1 : BindingId)]?.map Binding.state = some .released := by
    decide +kernel
  obtain ⟨binding, hbinding, heq⟩ := Option.map_eq_some_iff.mp hopen
  obtain ⟨after, hafter, hstate⟩ := Option.map_eq_some_iff.mp hclosed
  simp only [Prod.mk.injEq] at heq
  refine ⟨?_, ?_, ?_⟩
  · have hproof := (capacity_freed_by_teardown Sample.released).1 _ 1 binding after hbinding
      (by rw [heq.2.2]; rfl) hafter (by rw [hstate]; rfl)
    rwa [heq.1, heq.2.1] at hproof
  · exact (capacity_freed_by_teardown _).2.1 _ 1 after hafter (by rw [hstate]; rfl)
  · exact (capacity_freed_by_teardown Sample.released).2.2 _ _ 1 (by decide +kernel)
      (by decide +kernel)

end Archon.Kernel.Cluster
