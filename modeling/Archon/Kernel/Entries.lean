import Archon.Kernel.Tables

/-! One entry under one step. A step leaves a lease or a binding as it is, or
changes it in one of the few ways listed here; what an entry keeps and that the
tables stay well formed is read off these lists. -/
namespace Archon.Kernel.Cluster
open Fallible

/-- What a step makes of one lease. -/
inductive LeaseStep (c : Cluster) (command : Command) (id : LeaseId) (lease : Lease) :
    Lease → Prop where
  | kept : LeaseStep c command id lease lease
  | advanced {move : Lease → Lease} (h : Advanced c id lease command move) :
      LeaseStep c command id lease (move lease)
  | released (hcommand : command = .releaseLease id) (hdead : c.liveDescendants id = [])
      (hstate : lease.state = .active ∨ lease.state = .reserved) :
      LeaseStep c command id lease { lease with state := .released }
  | ended (h : Ended c id lease command keeps final last) :
      LeaseStep c command id lease (last lease)
  | descended {top : LeaseId} {topLease : Lease} (htop : c.leases[top]? = some topLease)
      (h : Ended c top topLease command keeps final last)
      (hbelow : id ∈ c.descendantsPostorder top) :
      LeaseStep c command id lease (endLease keeps final lease)
  | lost {bindingId : BindingId} {binding : Binding} {session fence : UInt64} {reason : String}
      (hcommand : command = .recordBindingFailed bindingId session reason fence)
      (hack : c.acknowledged bindingId session fence = .ok binding) (hlease : binding.lease = id) :
      LeaseStep c command id lease (endLease endedKeeps .failed lease)

/-- What a step makes of one binding. -/
inductive BindingStep (c : Cluster) (command : Command) (id : BindingId) (binding : Binding) :
    Binding → Prop where
  | kept : BindingStep c command id binding binding
  | rebound {move : Binding → Binding} (h : Rebound c id binding command move) :
      BindingStep c command id binding (move binding)
  | lost {session fence : UInt64} {reason : String}
      (hcommand : command = .recordBindingFailed id session reason fence)
      (hack : c.acknowledged id session fence = .ok binding) :
      BindingStep c command id binding { binding with
        agentSession := session
        state := if binding.state.isClosed then binding.state else .failed }

section Step
variable {c c' : Cluster}

theorem Annotated.nodes {command : Command} {staged : Graph} (h : Annotated c command staged) :
    staged.nodes = c.graph.nodes ∧ staged.parent = c.graph.parent := by
  cases h with
  | adopt _ h =>
    simp only [Graph.adoptFactWriters, check_bind_ok, check_pure_ok] at h
    obtain ⟨_, _, rfl⟩ := h
    exact ⟨rfl, rfl⟩
  | observe h =>
    unfold Graph.setObservation at h
    split at h
    · cases h
      exact ⟨rfl, rfl⟩
    · cases h

theorem Advanced.moves {id : LeaseId} {lease : Lease} {command : Command} {move : Lease → Lease}
    (h : Advanced c id lease command move)
    (hresolved : ∀ claim ∈ lease.allocation.claims, claim.quantity.isEmpty = false) :
    lease.Moves (move lease) := by
  cases h with
  | promote hstate hclaims =>
    exact ⟨rfl, rfl, mapM_resolveClaim_ok hclaims hresolved,
      fun _ => by simp [hstate, LeaseState.isLive], fun _ => hstate⟩
  | activate hstate =>
    exact ⟨rfl, rfl, rfl, fun _ => by simp [hstate, LeaseState.isLive], by simp⟩
  | renew => exact ⟨rfl, rfl, rfl, fun h => h, fun h => h⟩

theorem Rebound.moves {id : BindingId} {binding : Binding} {command : Command}
    {move : Binding → Binding} (h : Rebound c id binding command move) :
    binding.Moves (move binding) := by
  cases h with
  | activate _ _ hstate =>
    exact ⟨rfl, rfl, rfl, rfl, rfl, rfl, fun h => h, by simp [hstate, BindingState.isClosed]⟩
  | fail hopen => exact ⟨rfl, rfl, rfl, rfl, rfl, rfl, fun h => h, by simp [hopen]⟩
  | prepared => exact ⟨rfl, rfl, rfl, rfl, rfl, rfl, by simp, fun h => h⟩
  | active => exact ⟨rfl, rfl, rfl, rfl, rfl, rfl, fun h => h, fun h => h⟩
  | released => exact ⟨rfl, rfl, rfl, rfl, rfl, rfl, fun h => h, fun _ => rfl⟩
  | fenced => exact ⟨rfl, rfl, rfl, rfl, rfl, rfl, fun h => h, fun _ => rfl⟩
  | rebind => exact ⟨rfl, rfl, rfl, rfl, rfl, rfl, fun h => h, fun h => h⟩

/-- A lease table entry that a step creates. -/
def FreshLease (c : Cluster) (command : Command) (id : LeaseId) (lease : Lease) : Prop :=
  lease.id = id ∧ Admitted c command lease

/-- A binding table entry that a step creates. -/
structure FreshBinding (c : Cluster) (command : Command) (id : BindingId) (binding : Binding) :
    Prop where
  command : command = .openBinding id binding.lease binding.node binding.provider binding.scope
  key : binding.id = id
  lease : ∃ lease, c.leases[binding.lease]? = some lease ∧ lease.state = .preparing ∧
    lease.parent = none ∧ binding.node ∈ lease.allocation.claims.map Claim.node
  state : binding.state = .preparing
  handle : binding.providerHandle = none
  routed : ∃ machine, c.graph.machineOf binding.node = some machine ∧
    c.sessions[machine]? = some binding.agentSession
  alone : c.conflictingEndpoint binding.node binding.provider binding.scope = false
  fence : binding.fence = c.issuedFence id binding.node binding.provider binding.scope

/-- Every lease moves by one of the listed steps. -/
theorem leases_step (h : LeasesWellFormed c.leases) {command : Command}
    (hstep : Step c command c') :
    OrdMap.Evolves (c.LeaseStep command) (c.FreshLease command) c.leases c'.leases := by
  have hkept : ∀ (id : LeaseId) (lease : Lease), c.LeaseStep command id lease lease :=
    fun _ _ => .kept
  cases hstep with
  | enter _ hfresh hadmitted => exact .insert hkept hfresh ⟨rfl, hadmitted⟩
  | advance _ hlease hadvanced =>
    refine .modify hkept fun lease hfound => ?_
    rw [hlease] at hfound
    cases hfound
    exact .advanced hadvanced
  | release hdead hlease hstate =>
    refine .modify hkept fun lease hfound => ?_
    rw [hlease] at hfound
    cases hfound
    exact .released rfl hdead hstate
  | @finish _ keeps final last id lease hlease hended =>
    constructor
    · intro a before hbefore
      rw [get_endTree h]
      split
      · rename_i ha
        subst ha
        rw [hlease] at hbefore
        cases hbefore
        exact ⟨last lease, by simp [hlease], .ended hended⟩
      · split
        · rename_i hbelow
          exact ⟨endLease keeps final before, by simp [hbefore], .descended hlease hended hbelow⟩
        · exact ⟨before, hbefore, .kept⟩
    · intro a after hnone hafter
      rw [get_endTree h, hnone] at hafter
      simp at hafter
  | lose hack => exact .modify hkept fun lease _ => .lost rfl hack rfl
  | retry | install | annotate | bind | rebind | hello | restate | raise => exact .refl hkept

/-- Every binding moves by one of the listed steps. -/
theorem bindings_step {command : Command} (hstep : Step c command c') :
    OrdMap.Evolves (c.BindingStep command) (c.FreshBinding command) c.bindings c'.bindings := by
  have hkept : ∀ (id : BindingId) (binding : Binding), c.BindingStep command id binding binding :=
    fun _ _ => .kept
  cases hstep with
  | @bind node provider scope id leaseId lease claim required machine session hfresh hlease hstate
      hroot hclaim hrequired hprovider hscope hquarantine hmachine hsession hendpoint =>
    refine .insert hkept hfresh ⟨rfl, rfl, ⟨lease, hlease, hstate, hroot, ?_⟩, rfl, rfl,
      ⟨machine, hmachine, hsession⟩, hendpoint, rfl⟩
    have hnode := List.find?_some hclaim
    exact List.mem_map.mpr ⟨claim, List.mem_of_find?_eq_some hclaim, by simpa using hnode⟩
  | rebind hbinding hrebound =>
    refine .modify hkept fun binding hfound => ?_
    rw [hbinding] at hfound
    cases hfound
    exact .rebound hrebound
  | lose hack =>
    refine .modify hkept fun binding hfound => ?_
    rw [(acknowledged_ok.mp hack).1] at hfound
    cases hfound
    exact .lost rfl hack
  | retry | install | annotate | enter | advance | release | finish | hello | restate | raise =>
    exact .refl hkept

theorem LeaseStep.moves {command : Command} {id : LeaseId} {lease after : Lease}
    (h : c.LeaseStep command id lease after)
    (hresolved : ∀ claim ∈ lease.allocation.claims, claim.quantity.isEmpty = false) :
    lease.Moves after := by
  cases h with
  | kept => exact .refl lease
  | advanced hadvanced => exact hadvanced.moves hresolved
  | released => exact ⟨rfl, rfl, rfl, by simp [LeaseState.isLive], by simp⟩
  | ended hended => exact hended.terminal.2 lease
  | descended _ hended => exact endLease_moves hended.terminal.1 lease
  | lost => exact endLease_moves rfl lease

theorem BindingStep.moves {command : Command} {id : BindingId} {binding after : Binding}
    (h : c.BindingStep command id binding after) : binding.Moves after := by
  cases h with
  | kept => exact .refl binding
  | rebound hrebound => exact hrebound.moves
  | lost =>
    refine ⟨rfl, rfl, rfl, rfl, rfl, rfl, fun h => h, fun hclosed => ?_⟩
    simp [hclosed]

theorem leases_evolve (h : LeasesWellFormed c.leases) {command : Command}
    (hstep : Step c command c') :
    OrdMap.Evolves (fun _ => Lease.Moves) (c.FreshLease command) c.leases c'.leases :=
  (leases_step h hstep).mono fun _ _ _ hlease hmoved => hmoved.moves (h.resolved hlease)

theorem bindings_evolve {command : Command} (hstep : Step c command c') :
    OrdMap.Evolves (fun _ => Binding.Moves) (c.FreshBinding command) c.bindings c'.bindings :=
  (bindings_step hstep).mono fun _ _ _ _ hmoved => hmoved.moves

theorem opened_frame {command : Command} (hstep : Step c command c') {id : BindingId}
    {binding : Binding} (hnone : c.bindings[id]? = none) (hafter : c'.bindings[id]? = some binding) :
    c'.leases = c.leases ∧ c'.graph = c.graph ∧ c'.sessions = c.sessions ∧
      c'.lastFence = c.issuedFences binding.node binding.provider binding.scope := by
  cases hstep with
  | bind =>
    simp only [OrdMap.get_insert] at hafter
    split at hafter
    · cases hafter
      exact ⟨rfl, rfl, rfl, rfl⟩
    · simp [hnone] at hafter
  | rebind | lose =>
    simp only [OrdMap.get_modify, hnone] at hafter
    split at hafter <;> simp at hafter
  | retry | install | annotate | enter | advance | release | finish | hello | restate | raise =>
    simp [hnone] at hafter

/-! Acknowledgements. -/

theorem requireSession_ok {node machine : NodeId} {session : UInt64} :
    c.requireSession node session = .ok machine ↔
      c.graph.machineOf node = some machine ∧ c.sessions[machine]? = some session := by
  simp only [requireSession, check_bind_ok, okOr_ok, refuseIf_ok, not_not, check_pure_ok]
  constructor
  · rintro ⟨_, hmachine, _, hsession, _, rfl, rfl⟩
    exact ⟨hmachine, hsession⟩
  · rintro ⟨hmachine, hsession⟩
    exact ⟨machine, hmachine, session, hsession, (), rfl, rfl⟩

theorem acknowledged_routed {id : BindingId} {session fence : UInt64} {binding : Binding}
    (h : c.acknowledged id session fence = .ok binding) :
    fence = binding.fence ∧ ∃ machine, c.graph.machineOf binding.node = some machine ∧
      c.sessions[machine]? = some session := by
  obtain ⟨-, ⟨machine, hsession⟩, hfence⟩ := acknowledged_ok.mp h
  exact ⟨hfence.symm, machine, requireSession_ok.mp hsession⟩

/-! Preservation. -/

theorem Admitted.resolved {command : Command} {lease : Lease} (h : Admitted c command lease) :
    DistinctNodes lease.allocation.claims ∧
      ∀ claim ∈ lease.allocation.claims, claim.quantity.isEmpty = false := by
  cases h with
  | reserve hclaims => exact (resolveClaims_ok hclaims).2.2
  | openLease hclaims => exact (resolveClaims_ok hclaims).2.2

theorem Admitted.child {command : Command} {lease : Lease} (h : Admitted c command lease)
    {p : LeaseId} (hp : lease.parent = some p) :
    ∃ parent, c.leases[p]? = some parent ∧ parent.state = .active ∧
      c.requireWithinParent lease.id p parent lease.allocation.claims = .ok () := by
  cases h with
  | reserve => cases hp
  | openLease _ _ _ hdelegation =>
    simp only at hp
    subst hp
    simp only [requireDelegation, check_bind_ok, okOr_ok, refuseIf_ok, not_not] at hdelegation
    obtain ⟨parent, hparent, _, hactive, hwithin⟩ := hdelegation
    exact ⟨parent, hparent, hactive, hwithin⟩

theorem Admitted.root {command : Command} {lease : Lease} (h : Admitted c command lease)
    (hroot : lease.parent = none) : c.requireCover lease.id lease.allocation.claims = .ok () := by
  cases h with
  | reserve _ _ _ hcover => exact hcover
  | openLease _ _ _ hdelegation =>
    simp only at hroot
    subst hroot
    exact hdelegation

theorem Admitted.live {command : Command} {lease : Lease} (h : Admitted c command lease) :
    lease.state.isLive := by
  cases h <;> rfl

theorem leasesWellFormed_step (h : LeasesWellFormed c.leases) {command : Command}
    (hstep : Step c command c') : LeasesWellFormed c'.leases := by
  have hevolve := leases_evolve h hstep
  constructor
  · intro id after hafter
    rcases hevolve.origin hafter with ⟨lease, hlease, hmoves⟩ | ⟨-, hkey, -⟩
    · rw [hmoves.id, h.key hlease]
    · exact hkey
  · intro id after hafter p hp
    have hbefore : ∃ parent, c.leases[p]? = some parent := by
      rcases hevolve.origin hafter with ⟨lease, hlease, hmoves⟩ | ⟨-, -, hadmitted⟩
      · exact h.known hlease p (hmoves.parent ▸ hp)
      · obtain ⟨parent, hparent, -⟩ := hadmitted.child hp
        exact ⟨parent, hparent⟩
    obtain ⟨parent, hparent⟩ := hbefore
    obtain ⟨next, hnext, -⟩ := hevolve.kept p parent hparent
    exact ⟨next, hnext⟩
  · -- a new lease ranks above every lease that was there before it
    obtain ⟨rank, hrank⟩ := h.ranked
    refine ⟨fun id => if (c.leases[id]?).isSome then rank id else c.leases.size, ?_⟩
    intro id after hafter
    rcases hevolve.origin hafter with ⟨lease, hlease, hmoves⟩ | ⟨hnone, -, hadmitted⟩
    · obtain ⟨hbound, hparents⟩ := hrank id lease hlease
      have hsize := hevolve.size_le
      simp only [hlease, Option.isSome_some, if_true]
      refine ⟨by omega, fun p hp => ?_⟩
      obtain ⟨parent, hparent⟩ := h.known hlease p (hmoves.parent ▸ hp)
      simpa [hparent] using hparents p (hmoves.parent ▸ hp)
    · have hsize := hevolve.size_lt hnone hafter
      simp only [hnone, Option.isSome_none, Bool.false_eq_true, if_false]
      refine ⟨hsize, fun p hp => ?_⟩
      obtain ⟨parent, hparent, -⟩ := hadmitted.child hp
      simpa [hparent] using (hrank p parent hparent).1
  · intro id after hafter
    rcases hevolve.origin hafter with ⟨lease, hlease, hmoves⟩ | ⟨-, -, hadmitted⟩
    · rw [hmoves.claims]
      exact h.distinct hlease
    · exact hadmitted.resolved.1
  · intro id after hafter
    rcases hevolve.origin hafter with ⟨lease, hlease, hmoves⟩ | ⟨-, -, hadmitted⟩
    · rw [hmoves.claims]
      exact h.resolved hlease
    · exact hadmitted.resolved.2
  · intro id after hafter hreserved
    rcases hevolve.origin hafter with ⟨lease, hlease, hmoves⟩ | ⟨-, -, hadmitted⟩
    · rw [hmoves.parent]
      exact h.reserved hlease (hmoves.reserved hreserved)
    · cases hadmitted with
      | reserve => rfl
      | openLease => cases hreserved

theorem bindingsWellFormed_step (h : WellFormed c) {command : Command} (hstep : Step c command c') :
    BindingsWellFormed c'.leases c'.bindings := by
  have hleases := leases_evolve h.leases hstep
  have hbindings := bindings_evolve hstep
  constructor
  · intro id after hafter
    rcases hbindings.origin hafter with ⟨binding, hbinding, hmoves⟩ | ⟨-, hfresh⟩
    · rw [hmoves.id, h.bindings.key hbinding]
    · exact hfresh.key
  · intro id after hafter
    have hbefore : ∃ lease, c.leases[after.lease]? = some lease ∧ lease.parent = none ∧
        after.node ∈ lease.allocation.claims.map Claim.node := by
      rcases hbindings.origin hafter with ⟨binding, hbinding, hmoves⟩ | ⟨-, hfresh⟩
      · rw [hmoves.lease, hmoves.node]
        exact h.bindings.held hbinding
      · obtain ⟨lease, hlease, -, hroot, hnode⟩ := hfresh.lease
        exact ⟨lease, hlease, hroot, hnode⟩
    obtain ⟨lease, hlease, hroot, hnode⟩ := hbefore
    obtain ⟨next, hnext, hmoves⟩ := hleases.kept _ lease hlease
    exact ⟨next, hnext, hmoves.parent ▸ hroot, hmoves.claims ▸ hnode⟩

theorem wellFormed_step (h : WellFormed c) {command : Command} (hstep : Step c command c') :
    WellFormed c' :=
  ⟨leasesWellFormed_step h.leases hstep, bindingsWellFormed_step h hstep⟩

end Step
end Archon.Kernel.Cluster
