import Archon.Kernel.Teardown

/-! Routing. Every graph update is checked against the machine of each claim of
each occupying lease, so the machine that enforces a claim, and whose session
authenticates its acknowledgements, stays the same while the lease occupies. -/
namespace Archon.Kernel.Cluster
open Fallible

section Step
variable {c c' : Cluster} {command : Command}

theorem refuseRerouted_ok {staged : Graph} (hok : c.refuseRerouted staged = .ok ()) {id : LeaseId}
    {lease : Lease} (hlease : c.leases[id]? = some lease) (hoccupies : c.occupies id)
    {claim : Claim} (hclaim : claim ∈ lease.allocation.claims) :
    staged.machineOf claim.node = c.graph.machineOf claim.node := by
  simp only [refuseRerouted, List.forM_eq_forM, forM_ok, refuseIf_ok, not_not, List.mem_filter,
    OrdMap.mem_vals] at hok
  exact (hok lease ⟨⟨id, hlease⟩, (occupying_eq hlease).trans hoccupies⟩ claim hclaim).symm

theorem machineOf_congr {graph staged : Graph} (hnodes : staged.nodes = graph.nodes)
    (hparent : staged.parent = graph.parent) (node : NodeId) :
    staged.machineOf node = graph.machineOf node := by
  have hup : staged.parentOf = graph.parentOf := by
    funext id
    simp [Graph.parentOf, hparent]
  have hkind : staged.hasKind = graph.hasKind := by
    funext id kind
    simp [Graph.hasKind, Graph.node, hnodes]
  simp only [Graph.machineOf, Graph.ancestorOfClass, Graph.ancestors, hkind, hparent, hup]

/-- A step keeps the machine of every claim of an occupying lease. -/
theorem machineOf_step (hstep : Step c command c') {id : LeaseId} {lease : Lease}
    (hlease : c.leases[id]? = some lease) (hoccupies : c.occupies id) {claim : Claim}
    (hclaim : claim ∈ lease.allocation.claims) :
    c'.graph.machineOf claim.node = c.graph.machineOf claim.node := by
  cases hstep with
  | install _ _ _ hrouted => exact refuseRerouted_ok hrouted hlease hoccupies hclaim
  | annotate hannotated => exact machineOf_congr hannotated.nodes.1 hannotated.nodes.2 _
  | retry | enter | advance | release | finish | bind | rebind | lose | hello | restate | raise => rfl

/-- An open binding makes its lease occupy, and sits on one of its claims. -/
theorem open_binding_claim (h : WellFormed c) {id : BindingId} {binding : Binding}
    (hbinding : c.bindings[id]? = some binding) (hopen : binding.state.isClosed = false) :
    ∃ lease, c.leases[binding.lease]? = some lease ∧ c.occupies binding.lease ∧
      ∃ claim ∈ lease.allocation.claims, claim.node = binding.node := by
  obtain ⟨lease, hlease, -, hnode⟩ := h.bindings.held hbinding
  refine ⟨lease, hlease, ?_, List.mem_map.mp hnode⟩
  exact (occupies_iff h.leases).mpr
    ⟨lease, hlease, .inr (openBindings_iff.mpr ⟨id, binding, hbinding, rfl, hopen⟩)⟩

theorem sessions_step (hstep : Step c command c') {machine : NodeId} {session : UInt64}
    (hsession : c.sessions[machine]? = some session) :
    ∃ next, c'.sessions[machine]? = some next ∧ session ≤ next := by
  cases hstep with
  | @hello node newer _ _ _ hnewer =>
    simp only [OrdMap.get_insert]
    split
    · rename_i heq
      subst heq
      exact ⟨newer, rfl, hnewer session hsession⟩
    · exact ⟨session, hsession, UInt64.le_refl _⟩
  | retry | install | annotate | enter | advance | release | finish | bind | rebind | lose | restate
  | raise => exact ⟨session, hsession, UInt64.le_refl _⟩

/-- A binding changes its session only to the current one of its machine. -/
theorem agentSession_step (hstep : Step c command c') {id : BindingId} {binding after : Binding}
    (hbinding : c.bindings[id]? = some binding) (hafter : c'.bindings[id]? = some after) :
    after.agentSession = binding.agentSession ∨
      ∃ machine, c.graph.machineOf binding.node = some machine ∧
        c.sessions[machine]? = some after.agentSession := by
  cases (bindings_step hstep).moved hbinding hafter with
  | kept => exact .inl rfl
  | rebound hrebound =>
    cases hrebound with
    | activate => exact .inl rfl
    | fail => exact .inl rfl
    | prepared hack => exact .inr (acknowledged_routed hack).2
    | active hack => exact .inr (acknowledged_routed hack).2
    | released hack => exact .inr (acknowledged_routed hack).2
    | fenced hack => exact .inr (acknowledged_routed hack).2
    | rebind hsession => exact .inr ⟨_, requireSession_ok.mp hsession⟩
  | lost _ hack => exact .inr (acknowledged_routed hack).2

/-- Every open binding has a machine with a session at least its own. -/
def Routed (c : Cluster) : Prop :=
  ∀ (id : BindingId) (binding : Binding), c.bindings[id]? = some binding →
    binding.state.isClosed = false → ∃ machine session,
      c.graph.machineOf binding.node = some machine ∧ c.sessions[machine]? = some session ∧
        binding.agentSession ≤ session

theorem routed_step (h : WellFormed c) (hrouted : Routed c) (hstep : Step c command c') :
    Routed c' := by
  intro id after hafter hopen
  rcases (bindings_evolve hstep).origin hafter with ⟨binding, hbinding, hmoves⟩ | ⟨hnone, hfresh⟩
  · have hwasopen := hmoves.was_open hopen
    obtain ⟨machine, session, hmachine, hsession, hle⟩ := hrouted id binding hbinding hwasopen
    obtain ⟨lease, hlease, hoccupies, claim, hclaim, hnode⟩ :=
      open_binding_claim h hbinding hwasopen
    have hpinned := machineOf_step hstep hlease hoccupies hclaim
    obtain ⟨next, hnext, hgrows⟩ := sessions_step hstep hsession
    rw [hnode, ← hmoves.node] at hpinned
    refine ⟨machine, next, by rw [hpinned, hmoves.node, hmachine], hnext, ?_⟩
    rcases agentSession_step hstep hbinding hafter with hkept | ⟨current, hcurrent, hreported⟩
    · rw [hkept]
      exact UInt64.le_trans hle hgrows
    · rw [hmachine] at hcurrent
      cases hcurrent
      rw [hsession] at hreported
      cases hreported
      exact hgrows
  · obtain ⟨machine, hmachine, hsession⟩ := hfresh.routed
    obtain ⟨-, hgraph, hsessions, -⟩ := opened_frame hstep hnone hafter
    exact ⟨machine, after.agentSession, by rw [hgraph, hmachine], by rw [hsessions, hsession],
      UInt64.le_refl _⟩

/-- What a later cluster owes to an earlier one: claims of leases that still
occupy keep their machine, and sessions never fall. -/
structure PinnedSince (c c' : Cluster) : Prop where
  precedes : Precedes c c'
  machine : ∀ {id : LeaseId} {lease : Lease}, c.leases[id]? = some lease → c'.occupies id →
    ∀ claim ∈ lease.allocation.claims,
      c'.graph.machineOf claim.node = c.graph.machineOf claim.node
  session : ∀ {machine : NodeId} {session : UInt64}, c.sessions[machine]? = some session →
    ∃ next, c'.sessions[machine]? = some next ∧ session ≤ next

theorem PinnedSince.refl (c : Cluster) : PinnedSince c c where
  precedes := .refl c
  machine _ _ _ _ := rfl
  session hsession := ⟨_, hsession, UInt64.le_refl _⟩

theorem PinnedSince.step {first : Cluster} (h : PinnedSince first c) (hwell : WellFormed c)
    (hstep : Step c command c') : PinnedSince first c' where
  precedes := h.precedes.step hwell hstep
  machine {id lease} hlease hoccupies claim hclaim := by
    obtain ⟨next, hnext, hmoves⟩ := h.precedes.lease hlease
    have hheld := occupies_step hwell hstep hnext hoccupies
    rw [machineOf_step hstep hnext hheld (hmoves.claims.symm ▸ hclaim)]
    exact h.machine hlease hheld claim hclaim
  session hsession := by
    obtain ⟨next, hnext, hle⟩ := h.session hsession
    obtain ⟨last, hlast, hle'⟩ := sessions_step hstep hnext
    exact ⟨last, hlast, UInt64.le_trans hle hle'⟩

end Step

theorem routed_run (events : List Event) : Routed (run events) := by
  refine run_invariant ?_ (fun _ _ _ _ _ h => h)
    (fun before _ _ hstep h => routed_step (wellFormed_run before) h hstep) events
  intro id binding hbinding
  simp [new] at hbinding

theorem pinnedSince_run (before after : List Event) :
    PinnedSince (run before) (run (before ++ after)) :=
  run_related PinnedSince.refl
    (fun _ _ _ _ _ _ h => ⟨⟨h.precedes.lease, h.precedes.occupies, h.precedes.binding⟩,
      h.machine, h.session⟩)
    (fun _ events _ _ hstep h => h.step (wellFormed_run events) hstep) before after

/-- Enforcement stays on one machine: for the claims of a lease while it
occupies, for a binding while it is open, under sessions that never fall. -/
theorem enforcement_pinned (before after : List Event) :
    (∀ (id : LeaseId) (lease : Lease), (run before).leases[id]? = some lease →
      (run (before ++ after)).occupies id → ∀ claim ∈ lease.allocation.claims,
        (run (before ++ after)).graph.machineOf claim.node =
          (run before).graph.machineOf claim.node) ∧
    (∀ (id : BindingId) (binding next : Binding), (run before).bindings[id]? = some binding →
      (run (before ++ after)).bindings[id]? = some next → next.state.isClosed = false →
      next.node = binding.node ∧ (run (before ++ after)).graph.machineOf binding.node =
        (run before).graph.machineOf binding.node) ∧
    (∀ (machine : NodeId) (session : UInt64), (run before).sessions[machine]? = some session →
      ∃ next, (run (before ++ after)).sessions[machine]? = some next ∧ session ≤ next) ∧
    ∀ (id : BindingId) (binding : Binding), (run before).bindings[id]? = some binding →
      binding.state.isClosed = false → ∃ machine session,
        (run before).graph.machineOf binding.node = some machine ∧
          (run before).sessions[machine]? = some session ∧ binding.agentSession ≤ session := by
  have hpinned := pinnedSince_run before after
  refine ⟨fun _ _ => hpinned.machine, ?_, fun _ _ => hpinned.session, routed_run before⟩
  intro id binding next hbinding hnext hopen
  obtain ⟨found, hfound, hmoves⟩ := hpinned.precedes.binding hbinding
  rw [hnext] at hfound
  cases hfound
  refine ⟨hmoves.node, ?_⟩
  obtain ⟨lease, hlease, -, claim, hclaim, hnode⟩ :=
    open_binding_claim (wellFormed_run before) hbinding (hmoves.was_open hopen)
  obtain ⟨-, -, hoccupies, -⟩ := open_binding_claim (wellFormed_run (before ++ after)) hnext hopen
  rw [hmoves.lease] at hoccupies
  rw [← hnode]
  exact hpinned.machine hlease hoccupies claim hclaim

/-- A rack is put around the machine and its agent restarts. -/
def Sample.racked : List Event := [
  .apply (.applyResourceFacts [⟨3, .rack, ∅, ∅⟩] [⟨3, 1, .contains, ∅⟩] []),
  .apply (.setAgentSession 1 4)]

theorem racked_gpu_pinned :
    (run (Sample.running .exclusive ++ Sample.racked)).graph.machineOf 2 =
      (run (Sample.running .exclusive)).graph.machineOf 2 ∧
    (∃ next, (run (Sample.running .exclusive ++ Sample.racked)).sessions[(1 : NodeId)]? =
      some next ∧ 1 ≤ next) ∧
    ∃ (binding next : Binding),
      (run (Sample.running .exclusive)).bindings[(1 : BindingId)]? = some binding ∧
      (run (Sample.running .exclusive ++ Sample.racked)).bindings[(1 : BindingId)]? = some next ∧
      next.node = binding.node ∧
      ∃ machine session, (run (Sample.running .exclusive)).graph.machineOf binding.node =
        some machine ∧ (run (Sample.running .exclusive)).sessions[machine]? = some session ∧
          binding.agentSession ≤ session := by
  have hlease : (run (Sample.running .exclusive)).leases[(1 : LeaseId)]?.map (fun lease =>
      lease.allocation.claims) = some [⟨2, Sample.units 2⟩] := by
    decide +kernel
  have hbinding : (run (Sample.running .exclusive)).bindings[(1 : BindingId)]?.map
      Binding.state = some .active := by
    decide +kernel
  have hnext : (run (Sample.running .exclusive ++ Sample.racked)).bindings[(1 : BindingId)]?.map
      Binding.state = some .active := by
    decide +kernel
  obtain ⟨lease, hholder, hclaims⟩ := Option.map_eq_some_iff.mp hlease
  obtain ⟨binding, hfound, hstate⟩ := Option.map_eq_some_iff.mp hbinding
  obtain ⟨next, hlater, hstill⟩ := Option.map_eq_some_iff.mp hnext
  have hpinned := enforcement_pinned (Sample.running .exclusive) Sample.racked
  refine ⟨?_, hpinned.2.2.1 1 1 (by decide +kernel), binding, next, hfound, hlater, ?_, ?_⟩
  · exact hpinned.1 1 lease hholder (by decide +kernel) ⟨2, Sample.units 2⟩ (by simp [hclaims])
  · exact (hpinned.2.1 1 binding next hfound hlater (by rw [hstill]; rfl)).1
  · exact hpinned.2.2.2 1 binding hfound (by rw [hstate]; rfl)

end Archon.Kernel.Cluster
