import Archon.Kernel.Admission
import Archon.Kernel.Routing

/-! Preemption plans. A plan is computed on an occupancy from which the victims
and everything delegated from them are taken out; the eviction itself goes
through revocation and the teardown of every open binding. Both leave the same
occupancy. -/
namespace Archon.Kernel

inductive PreemptionOutcome where
  | alreadyFeasible
  | planned
  | notFeasible
  deriving DecidableEq

/-- One candidate the planner considered. -/
structure PreemptionStep where
  rank : Nat
  lease : LeaseId
  owner : OwnerId
  priority : UInt32
  feasibleAfterEviction : Bool
  deriving DecidableEq

/-- The victims are listed only when the outcome is `planned`. -/
structure PreemptionPlan where
  request : RequestId
  requestPriority : UInt32
  outcome : PreemptionOutcome
  victims : List LeaseId
  steps : List PreemptionStep
  deriving DecidableEq

namespace Cluster
open Fallible

/-- The leases that leave with the victims. -/
def evicts (self : Cluster) (victims : List LeaseId) : List LeaseId :=
  victims ++ victims.flatMap self.descendantsPostorder

def feasibleWithout (self : Cluster) (request : Request) (victims : List LeaseId) : Bool :=
  (select self.graph (self.occupancyExcept (self.evicts victims)) request self.placementBlocked).isOk

/-- The leases a request may preempt, the least important and newest first. -/
def preemptionCandidates (self : Cluster) (request : Request) : List Lease :=
  ((OrdMap.vals self.leases).filter fun lease =>
      lease.parent.isNone && lease.priority < request.priority && self.occupies lease.id).insertionSort
    fun left right =>
      ((compare left.priority right.priority).then (compare right.id left.id)).isLE

/-- Victims are added one by one until the request fits in projection. -/
def planFrom (self : Cluster) (request : Request) :
    List LeaseId → List PreemptionStep → List Lease → PreemptionPlan
  | _, steps, [] => ⟨request.id, request.priority, .notFeasible, [], steps⟩
  | victims, steps, candidate :: rest =>
    let projected := victims ++ [candidate.id]
    let feasible := self.feasibleWithout request projected
    let inspected := steps ++
      [⟨steps.length, candidate.id, candidate.owner, candidate.priority, feasible⟩]
    if feasible then ⟨request.id, request.priority, .planned, projected, inspected⟩
    else self.planFrom request projected inspected rest

def preemptionPlan (self : Cluster) (request : Request) : PreemptionPlan :=
  if (select self.graph self.occupancy request self.placementBlocked).isOk then
    ⟨request.id, request.priority, .alreadyFeasible, [], []⟩
  else
    self.planFrom request [] [] (self.preemptionCandidates request)

/-! What a plan says. -/

/-- A lease the request may preempt. -/
def Preemptible (c : Cluster) (request : Request) (id : LeaseId) : Prop :=
  ∃ lease, c.leases[id]? = some lease ∧ lease.parent = none ∧ lease.priority < request.priority ∧
    c.occupies id

section Plan
variable {c : Cluster} {request : Request}

theorem mem_evicts {victims : List LeaseId} {id : LeaseId} :
    id ∈ c.evicts victims ↔ ∃ victim ∈ victims, id = victim ∨ id ∈ c.descendantsPostorder victim := by
  simp only [evicts, List.mem_append, List.mem_flatMap]
  constructor
  · rintro (hmem | ⟨victim, hmem, hbelow⟩)
    · exact ⟨id, hmem, .inl rfl⟩
    · exact ⟨victim, hmem, .inr hbelow⟩
  · rintro ⟨victim, hmem, rfl | hbelow⟩
    · exact .inl hmem
    · exact .inr ⟨victim, hmem, hbelow⟩

theorem mem_preemptionCandidates (h : LeasesWellFormed c.leases) {id : LeaseId} :
    id ∈ (c.preemptionCandidates request).map Lease.id ↔ c.Preemptible request id := by
  simp only [preemptionCandidates, List.mem_map, List.mem_insertionSort, List.mem_filter, OrdMap.mem_vals,
    Bool.and_eq_true, decide_eq_true_eq, Option.isNone_iff_eq_none, Preemptible]
  constructor
  · rintro ⟨lease, ⟨⟨key, hlease⟩, ⟨hroot, hlower⟩, hoccupies⟩, rfl⟩
    exact ⟨lease, (h.key hlease).symm ▸ hlease, hroot, hlower, hoccupies⟩
  · rintro ⟨lease, hlease, hroot, hlower, hoccupies⟩
    have hid := h.key hlease
    exact ⟨lease, ⟨⟨id, hlease⟩, ⟨hroot, hlower⟩, hid ▸ hoccupies⟩, hid⟩

theorem occupancyExcept_congr {except except' : List LeaseId}
    (h : ∀ id : LeaseId, id ∈ except ↔ id ∈ except') :
    c.occupancyExcept except = c.occupancyExcept except' := by
  simp only [occupancyExcept, occupancyFromLeases, h]

/-- How the search for victims ends: with the first list of candidates that
makes room, or with all of them in vain. -/
structure PlanEnds (c : Cluster) (request : Request) (all : List LeaseId) (plan : PreemptionPlan) :
    Prop where
  searched : plan.outcome ≠ .alreadyFeasible
  planned : plan.outcome = .planned → plan.victims <+: all ∧
    c.feasibleWithout request plan.victims ∧
    ∀ fewer, fewer <+: plan.victims → fewer ≠ plan.victims → c.feasibleWithout request fewer = false
  exhausted : plan.outcome = .notFeasible → plan.victims = [] ∧ c.feasibleWithout request all = false

theorem planFrom_ends {victims : List LeaseId} (steps : List PreemptionStep) {rest : List Lease}
    (hvain : ∀ fewer, fewer <+: victims → c.feasibleWithout request fewer = false) :
    PlanEnds c request (victims ++ rest.map Lease.id) (c.planFrom request victims steps rest) := by
  induction rest generalizing victims steps with
  | nil =>
    refine ⟨nofun, nofun, fun _ => ⟨rfl, ?_⟩⟩
    rw [List.map_nil, List.append_nil]
    exact hvain victims List.prefix_rfl
  | cons candidate rest ih =>
    have hall : victims ++ (candidate :: rest).map Lease.id =
        victims ++ [candidate.id] ++ rest.map Lease.id := by
      simp
    rw [hall, planFrom]
    split
    · rename_i hfeasible
      refine ⟨nofun, fun _ => ⟨List.prefix_append _ _, hfeasible, ?_⟩, nofun⟩
      · intro fewer hfewer hne
        rcases List.prefix_concat_iff.mp hfewer with heq | hbefore
        · exact absurd heq hne
        · exact hvain fewer hbefore
    · rename_i hfeasible
      refine ih _ fun fewer hfewer => ?_
      rcases List.prefix_concat_iff.mp hfewer with rfl | hbefore
      · simpa using hfeasible
      · exact hvain fewer hbefore

theorem preemptionPlan_ends
    (hfull : (select c.graph c.occupancy request c.placementBlocked).isOk = false) :
    PlanEnds c request ((c.preemptionCandidates request).map Lease.id) (c.preemptionPlan request) := by
  rw [preemptionPlan, hfull]
  have hends := @planFrom_ends c request [] [] (c.preemptionCandidates request) fun fewer hfewer => by
    rw [List.prefix_nil.mp hfewer]
    exact hfull
  exact hends

theorem alreadyFeasible_iff :
    (c.preemptionPlan request).outcome = .alreadyFeasible ↔
      (select c.graph c.occupancy request c.placementBlocked).isOk := by
  cases hfull : (select c.graph c.occupancy request c.placementBlocked).isOk with
  | true => simp [preemptionPlan, hfull]
  | false => simp [(preemptionPlan_ends hfull).searched]

end Plan

/-! Eviction. -/

/-- The commands that evict: every victim is revoked, and every open binding of
a victim is fenced under the current session of its machine and its own fence. -/
def Evicting (c : Cluster) (victims : List LeaseId) (command : Command) : Prop :=
  (∃ victim ∈ victims, command = .revokeLease victim) ∨
  ∃ (id : BindingId) (binding : Binding) (machine : NodeId) (session : UInt64),
    c.bindings[id]? = some binding ∧ binding.lease ∈ victims ∧ binding.state.isClosed = false ∧
      c.graph.machineOf binding.node = some machine ∧ c.sessions[machine]? = some session ∧
      command = .recordBindingFenced id session binding.fence

/-- What an eviction leaves as it was. -/
structure SparesOthers (c : Cluster) (victims : List LeaseId) (c' : Cluster) : Prop where
  graph : c'.graph = c.graph
  nodeStates : c'.nodeStates = c.nodeStates
  sessions : c'.sessions = c.sessions
  lease : ∀ id, id ∉ c.evicts victims → c'.leases[id]? = c.leases[id]?
  parent : ∀ (id p : LeaseId) (lease : Lease), c'.leases[id]? = some lease → lease.parent = some p →
    ∃ before, c.leases[id]? = some before ∧ before.parent = some p
  binding : ∀ id : BindingId, (∀ binding, c.bindings[id]? = some binding → binding.lease ∉ victims) →
    c'.bindings[id]? = c.bindings[id]?

section Eviction
variable {c c' : Cluster} {victims : List LeaseId} {command : Command}

theorem SparesOthers.refl (c : Cluster) (victims : List LeaseId) : SparesOthers c victims c where
  graph := rfl
  nodeStates := rfl
  sessions := rfl
  lease _ _ := rfl
  parent _ _ lease hlease hparent := ⟨lease, hlease, hparent⟩
  binding _ _ := rfl

theorem SparesOthers.descendants (h : SparesOthers c victims c') (hc : LeasesWellFormed c.leases)
    (hc' : LeasesWellFormed c'.leases) {id descendant : LeaseId}
    (hbelow : descendant ∈ c'.descendantsPostorder id) : descendant ∈ c.descendantsPostorder id := by
  rw [mem_descendantsPostorder hc'] at hbelow
  rw [mem_descendantsPostorder hc]
  refine Relation.TransGen.mono ?_ _ _ hbelow
  intro parent child hchild
  obtain ⟨lease, hlease, hparent⟩ := (mem_sortedChildren hc').mp hchild
  exact (mem_sortedChildren hc).mpr (h.parent child parent lease hlease hparent)

theorem revokeLease_step {id : LeaseId} {lease : Lease} (hlease : c.leases[id]? = some lease) :
    Step c (.revokeLease id)
      { c with leases := c.endTree id endedKeeps .revoked (endLease endedKeeps .revoked) } :=
  .finish hlease .revoke

theorem recordBindingFenced_step {id : BindingId} {binding : Binding} {machine : NodeId}
    {session : UInt64} (hbinding : c.bindings[id]? = some binding)
    (hmachine : c.graph.machineOf binding.node = some machine)
    (hsession : c.sessions[machine]? = some session) :
    Step c (.recordBindingFenced id session binding.fence)
      { c with bindings := c.bindings.modify id fun binding =>
        { binding with agentSession := session, state := .fenced } } := by
  have hack : c.acknowledged id session binding.fence = .ok binding := by
    simp [acknowledged, okOr, hbinding, requireSession, hmachine, hsession, refuseIf, requireFence]
  exact .rebind hbinding (.fenced hack)

theorem endLease_parent (keeps : LeaseState → Bool) (final : LeaseState) (lease : Lease) :
    (endLease keeps final lease).parent = lease.parent := by
  unfold endLease
  split <;> rfl

theorem endLease_revoked_stopped (lease : Lease) :
    (endLease endedKeeps .revoked lease).state.isLive = false := by
  unfold endLease
  cases hstate : lease.state <;> simp [endedKeeps, hstate, LeaseState.isLive]

theorem SparesOthers.revoke (h : SparesOthers c victims c') (hc : LeasesWellFormed c.leases)
    (hc' : LeasesWellFormed c'.leases) {victim : LeaseId} (hvictim : victim ∈ victims) :
    SparesOthers c victims { c' with
      leases := c'.endTree victim endedKeeps .revoked (endLease endedKeeps .revoked) } where
  graph := h.graph
  nodeStates := h.nodeStates
  sessions := h.sessions
  lease id hid := by
    have hother : id ≠ victim := fun heq => hid (mem_evicts.mpr ⟨victim, hvictim, .inl heq⟩)
    have houtside : id ∉ c'.descendantsPostorder victim := fun hbelow =>
      hid (mem_evicts.mpr ⟨victim, hvictim, .inr (h.descendants hc hc' hbelow)⟩)
    rw [← h.lease id hid, get_endTree hc', if_neg hother, if_neg houtside]
  parent id p lease hlease hparent := by
    have hold : ∃ old, c'.leases[id]? = some old ∧ old.parent = lease.parent := by
      rw [get_endTree hc'] at hlease
      split at hlease
      · obtain ⟨old, hold, rfl⟩ := Option.map_eq_some_iff.mp hlease
        exact ⟨old, hold, (endLease_parent _ _ old).symm⟩
      · split at hlease
        · obtain ⟨old, hold, rfl⟩ := Option.map_eq_some_iff.mp hlease
          exact ⟨old, hold, (endLease_parent _ _ old).symm⟩
        · exact ⟨lease, hlease, rfl⟩
    obtain ⟨old, hold, hsame⟩ := hold
    exact h.parent id p old hold (hsame.trans hparent)
  binding := h.binding

theorem SparesOthers.fence (h : SparesOthers c victims c') {id : BindingId} {binding : Binding}
    (hbinding : c.bindings[id]? = some binding) (hvictim : binding.lease ∈ victims)
    (f : Binding → Binding) :
    SparesOthers c victims { c' with bindings := c'.bindings.modify id f } where
  graph := h.graph
  nodeStates := h.nodeStates
  sessions := h.sessions
  lease := h.lease
  parent := h.parent
  binding other hother := by
    have hne : id ≠ other := by
      rintro rfl
      exact hother binding hbinding hvictim
    rw [OrdMap.get_modify, if_neg hne]
    exact h.binding other hother

theorem SparesOthers.accepts (h : SparesOthers c victims c') (hwell : WellFormed c) (hprecedes : Precedes c c')
    (hvictims : ∀ victim ∈ victims, ∃ lease, c.leases[victim]? = some lease)
    (hcommand : c.Evicting victims command) :
    ∃ next, Step c' command next ∧ (WellFormed c' → SparesOthers c victims next) := by
  rcases hcommand with ⟨victim, hvictim, rfl⟩ |
    ⟨id, binding, machine, session, hbinding, hheld, -, hmachine, hsession, rfl⟩
  · obtain ⟨lease, hlease⟩ := hvictims victim hvictim
    obtain ⟨next, hnext, -⟩ := hprecedes.lease hlease
    exact ⟨_, revokeLease_step hnext, fun hwell' => h.revoke hwell.leases hwell'.leases hvictim⟩
  · obtain ⟨next, hnext, hmoves⟩ := hprecedes.binding hbinding
    have hstep := @recordBindingFenced_step c' id next machine session hnext
      (by rw [h.graph, hmoves.node, hmachine]) (by rw [h.sessions, hsession])
    rw [hmoves.fence] at hstep
    exact ⟨_, hstep, fun _ => h.fence hbinding hheld _⟩

end Eviction

/-! Runs. -/

/-- Every event of the list is a command the cluster accepts. -/
def Accepted (c : Cluster) (event : Event) : Prop :=
  ∃ command, event = .apply command ∧ c.accepts command

section Run
variable {events : List Event} {victims : List LeaseId} {commands : List Command}

/-- The events of an eviction. -/
def evicting (commands : List Command) : List Event := commands.map Event.apply

theorem evicting_concat (commands : List Command) (command : Command) :
    evicting (commands ++ [command]) = evicting commands ++ [.apply command] := by
  simp [evicting]

/-- An eviction is accepted command by command and spares everyone else. -/
theorem evicting_run (hvictims : ∀ victim ∈ victims, ∃ lease, (run events).leases[victim]? = some lease)
    (hcommands : ∀ command ∈ commands, (run events).Evicting victims command) :
    Runs.Along take Accepted (run events) (evicting commands) ∧
      SparesOthers (run events) victims (run (events ++ evicting commands)) := by
  induction commands using List.reverseRecOn with
  | nil =>
    rw [evicting, List.map_nil, List.append_nil]
    exact ⟨trivial, .refl _ _⟩
  | append_singleton commands command ih =>
    obtain ⟨halong, hspared⟩ := ih fun other hother => hcommands other (List.mem_append_left _ hother)
    obtain ⟨next, hstep, hnext⟩ := hspared.accepts (wellFormed_run events) (precedes_run events _)
      hvictims (hcommands command (by simp))
    have hrun : run (events ++ evicting commands) = Runs.run take (run events) (evicting commands) :=
      Runs.run_append events _
    rw [evicting_concat]
    constructor
    · rw [Runs.along_concat, ← hrun]
      exact ⟨halong, command, rfl, accepts_iff.mpr ⟨next, hstep⟩⟩
    · rw [← List.append_assoc, run_of_step hstep]
      have hafter := hnext (wellFormed_run _)
      exact ⟨hafter.graph, hafter.nodeStates, hafter.sessions, hafter.lease, hafter.parent,
        hafter.binding⟩

theorem evicting_split {command : Command} (hmem : command ∈ commands) :
    ∃ earlier later, (∀ other ∈ earlier, other ∈ commands) ∧ events ++ evicting commands =
      (events ++ evicting earlier ++ [.apply command]) ++ evicting later := by
  obtain ⟨earlier, later, rfl⟩ := List.append_of_mem hmem
  exact ⟨earlier, later, fun _ => List.mem_append_left _, by simp [evicting]⟩

theorem Precedes.descendants {c c' : Cluster} (h : Precedes c c') (hc : LeasesWellFormed c.leases)
    (hc' : LeasesWellFormed c'.leases) {id descendant : LeaseId}
    (hbelow : descendant ∈ c.descendantsPostorder id) : descendant ∈ c'.descendantsPostorder id := by
  rw [mem_descendantsPostorder hc] at hbelow
  rw [mem_descendantsPostorder hc']
  refine Relation.TransGen.mono ?_ _ _ hbelow
  intro parent child hchild
  obtain ⟨lease, hlease, hparent⟩ := (mem_sortedChildren hc).mp hchild
  obtain ⟨next, hnext, hmoves⟩ := h.lease hlease
  exact (mem_sortedChildren hc').mpr ⟨next, hnext, hmoves.parent.trans hparent⟩

theorem stopped_after_revoke {victim id : LeaseId} {lease last : Lease}
    (hlease : (run events).leases[victim]? = some lease)
    (hid : id = victim ∨ id ∈ (run events).descendantsPostorder victim)
    (hlast : (run (events ++ [.apply (.revokeLease victim)])).leases[id]? = some last) :
    last.state.isLive = false := by
  rw [run_of_step (revokeLease_step hlease)] at hlast
  change ((run events).endTree victim endedKeeps .revoked (endLease endedKeeps .revoked))[id]? = _
    at hlast
  have hended : (run events).leases[id]?.map (endLease endedKeeps .revoked) = some last := by
    rw [← hlast, get_endTree (wellFormed_run events).leases]
    by_cases hsame : id = victim
    · rw [if_pos hsame]
    · rw [if_neg hsame, if_pos (hid.resolve_left hsame)]
  obtain ⟨found, -, rfl⟩ := Option.map_eq_some_iff.mp hended
  exact endLease_revoked_stopped found

theorem stopped_after_eviction {victim id : LeaseId} {lease found last : Lease}
    (hlease : (run events).leases[victim]? = some lease)
    (hfound : (run events).leases[id]? = some found)
    (hid : id = victim ∨ id ∈ (run events).descendantsPostorder victim)
    (hrevoked : .revokeLease victim ∈ commands)
    (hlast : (run (events ++ evicting commands)).leases[id]? = some last) :
    last.state.isLive = false := by
  obtain ⟨earlier, later, -, hsplit⟩ := @evicting_split events _ _ hrevoked
  have hprecedes := precedes_run events (evicting earlier)
  obtain ⟨there, hthere, -⟩ := hprecedes.lease hlease
  obtain ⟨before, hbefore, -⟩ := hprecedes.lease hfound
  have hid' : id = victim ∨ id ∈ (run (events ++ evicting earlier)).descendantsPostorder victim :=
    hid.imp_right (hprecedes.descendants (wellFormed_run _).leases (wellFormed_run _).leases)
  obtain ⟨revoked, hrevoked, -⟩ :=
    (precedes_run (events ++ evicting earlier) [.apply (.revokeLease victim)]).lease hbefore
  have hstopped := stopped_after_revoke hthere hid' hrevoked
  obtain ⟨final, hfinal, hmoves⟩ := (precedes_run _ (evicting later)).lease hrevoked
  rw [← hsplit, hlast] at hfinal
  cases hfinal
  cases hlive : last.state.isLive with
  | false => rfl
  | true =>
    rw [hmoves.live hlive] at hstopped
    cases hstopped

theorem closed_after_eviction {id : BindingId} {binding last : Binding} {machine : NodeId}
    {session : UInt64}
    (hvictims : ∀ victim ∈ victims, ∃ lease, (run events).leases[victim]? = some lease)
    (hcommands : ∀ command ∈ commands, (run events).Evicting victims command)
    (hbinding : (run events).bindings[id]? = some binding)
    (hmachine : (run events).graph.machineOf binding.node = some machine)
    (hsession : (run events).sessions[machine]? = some session)
    (hfenced : .recordBindingFenced id session binding.fence ∈ commands)
    (hlast : (run (events ++ evicting commands)).bindings[id]? = some last) :
    last.state.isClosed := by
  obtain ⟨earlier, later, hearlier, hsplit⟩ := @evicting_split events _ _ hfenced
  obtain ⟨-, hspared⟩ := evicting_run hvictims fun other hother => hcommands other (hearlier other hother)
  obtain ⟨there, hthere, hmoves⟩ := (precedes_run events (evicting earlier)).binding hbinding
  have hstep := @recordBindingFenced_step _ id there machine session hthere
    (by rw [hspared.graph, hmoves.node, hmachine]) (by rw [hspared.sessions, hsession])
  rw [hmoves.fence] at hstep
  have hclosed : (run (events ++ evicting earlier ++
      [.apply (.recordBindingFenced id session binding.fence)])).bindings[id]? =
      some { there with agentSession := session, state := .fenced } := by
    rw [run_of_step hstep, OrdMap.get_modify, if_pos rfl, hthere]
    rfl
  obtain ⟨final, hfinal, hkept⟩ := (precedes_run _ (evicting later)).binding hclosed
  rw [← hsplit, hlast] at hfinal
  cases hfinal
  exact hkept.closed rfl

end Run

/-! What the eviction comes to. -/

theorem parent_of_descendant {c : Cluster} (h : LeasesWellFormed c.leases) {id descendant : LeaseId}
    (hbelow : descendant ∈ c.descendantsPostorder id) :
    ∃ lease parent, c.leases[descendant]? = some lease ∧ lease.parent = some parent := by
  obtain ⟨parent, -, hchild⟩ := Relation.TransGen.tail'_iff.mp ((mem_descendantsPostorder h).mp hbelow)
  obtain ⟨lease, hlease, hparent⟩ := (mem_sortedChildren h).mp hchild
  exact ⟨lease, parent, hlease, hparent⟩

/-- The victims are gone, and everyone else is as before. -/
structure Evicted (c : Cluster) (victims : List LeaseId) (c' : Cluster) : Prop where
  spared : SparesOthers c victims c'
  gone : ∀ id ∈ c.evicts victims, c'.occupies id = false
  openBindings : ∀ id, id ∉ c.evicts victims → c'.openBindings id = c.openBindings id

theorem Evicted.occupancy {c c' : Cluster} {victims : List LeaseId} (h : Evicted c victims c')
    (hc : LeasesWellFormed c.leases) (hc' : LeasesWellFormed c'.leases) :
    c'.occupancy = c.occupancyExcept (c.evicts victims) := by
  have hoccupying : (OrdMap.vals c'.leases).filter (fun lease =>
      lease.id ∉ ([] : List LeaseId) && leaseOccupies lease (lease.id ∈ c'.openBindingLeases)) =
      (OrdMap.vals c.leases).filter fun lease =>
        lease.id ∉ c.evicts victims && leaseOccupies lease (lease.id ∈ c.openBindingLeases) := by
    refine OrdMap.filter_vals_congr fun id lease => ?_
    simp only [List.not_mem_nil, not_false_eq_true, decide_true, Bool.true_and, Bool.and_eq_true,
      decide_eq_true_eq, mem_openBindingLeases, Bool.decide_eq_true]
    constructor
    · rintro ⟨hlease, hoccupies⟩
      have hid := hc'.key hlease
      have hspared : id ∉ c.evicts victims := by
        intro hgone
        have hstopped := h.gone id hgone
        rw [← occupying_eq hlease] at hstopped
        simp only [mem_openBindingLeases, Bool.decide_eq_true, hoccupies] at hstopped
        cases hstopped
      rw [hid] at hoccupies ⊢
      rw [h.openBindings id hspared] at hoccupies
      exact ⟨(h.spared.lease id hspared).symm.trans hlease, hspared, hoccupies⟩
    · rintro ⟨hlease, hspared, hoccupies⟩
      have hid := hc.key hlease
      rw [hid] at hspared hoccupies ⊢
      rw [h.openBindings id hspared]
      exact ⟨(h.spared.lease id hspared).trans hlease, hoccupies⟩
  unfold Cluster.occupancy occupancyExcept occupancyFromLeases
  rw [hoccupying]

/-- A lease with a binding has no parent, so what is delegated from a victim
holds nothing of its own. -/
theorem evicted_run {events : List Event} {victims : List LeaseId} {commands : List Command}
    (hvictims : ∀ victim ∈ victims, ∃ lease, (run events).leases[victim]? = some lease)
    (hcommands : ∀ command, command ∈ commands ↔ (run events).Evicting victims command) :
    Evicted (run events) victims (run (events ++ evicting commands)) := by
  obtain ⟨-, hspared⟩ := evicting_run hvictims fun command => (hcommands command).mp
  have hwell := wellFormed_run events
  have hwell' := wellFormed_run (events ++ evicting commands)
  have hprecedes := precedes_run events (evicting commands)
  -- every binding of the later cluster was there before, or its lease is no victim's
  have hbefore : ∀ (id : BindingId) (after : Binding),
      (run (events ++ evicting commands)).bindings[id]? = some after →
      ∃ binding, (run events).bindings[id]? = some binding ∧ binding.Moves after := by
    intro id after hafter
    cases hbinding : (run events).bindings[id]? with
    | none =>
      rw [hspared.binding id (by simp [hbinding]), hbinding] at hafter
      cases hafter
    | some binding =>
      obtain ⟨next, hnext, hmoves⟩ := hprecedes.binding hbinding
      rw [hafter] at hnext
      cases hnext
      exact ⟨binding, rfl, hmoves⟩
  refine ⟨hspared, ?_, ?_⟩
  · intro id hgone
    obtain ⟨victim, hvictim, hid⟩ := mem_evicts.mp hgone
    obtain ⟨lease, hlease⟩ := hvictims victim hvictim
    have hfound : ∃ found, (run events).leases[id]? = some found := by
      rcases hid with rfl | hbelow
      · exact ⟨lease, hlease⟩
      · obtain ⟨child, -, hchild, -⟩ := parent_of_descendant hwell.leases hbelow
        exact ⟨child, hchild⟩
    obtain ⟨found, hfound⟩ := hfound
    rw [Bool.eq_false_iff]
    intro hoccupies
    obtain ⟨last, hlast, hlive | hopen⟩ := (occupies_iff hwell'.leases).mp hoccupies
    · rw [stopped_after_eviction hlease hfound hid
        ((hcommands _).mpr (.inl ⟨victim, hvictim, rfl⟩)) hlast] at hlive
      cases hlive
    · obtain ⟨bindingId, after, hafter, rfl, hstate⟩ := openBindings_iff.mp hopen
      obtain ⟨binding, hbinding, hmoves⟩ := hbefore bindingId after hafter
      have hheld := hmoves.was_open hstate
      obtain ⟨holder, hholder, hroot, -⟩ := hwell.bindings.held hbinding
      rcases hid with hid | hbelow
      · obtain ⟨machine, session, hmachine, hsession, -⟩ := routed_run events bindingId binding hbinding hheld
        have hfence : (run events).Evicting victims (.recordBindingFenced bindingId session binding.fence) :=
          .inr ⟨bindingId, binding, machine, session, hbinding, by rw [← hmoves.lease, hid]; exact hvictim,
            hheld, hmachine, hsession, rfl⟩
        have hclosed := closed_after_eviction hvictims (fun command => (hcommands command).mp) hbinding
          hmachine hsession ((hcommands _).mpr hfence) hafter
        rw [hstate] at hclosed
        cases hclosed
      · obtain ⟨child, parent, hchild, hparent⟩ := parent_of_descendant hwell.leases hbelow
        rw [hmoves.lease, hholder] at hchild
        cases hchild
        rw [hroot] at hparent
        cases hparent
  · intro id hout
    have hvictim : id ∉ victims := fun hmem => hout (mem_evicts.mpr ⟨id, hmem, .inl rfl⟩)
    rw [Bool.eq_iff_iff, openBindings_iff, openBindings_iff]
    constructor
    · rintro ⟨bindingId, after, hafter, rfl, hopen⟩
      obtain ⟨binding, hbinding, hmoves⟩ := hbefore bindingId after hafter
      exact ⟨bindingId, binding, hbinding, hmoves.lease.symm, hmoves.was_open hopen⟩
    · rintro ⟨bindingId, binding, hbinding, rfl, hopen⟩
      have hsame := hspared.binding bindingId fun other hother => by
        rw [hbinding] at hother
        cases hother
        exact hvictim
      exact ⟨bindingId, binding, hsame.trans hbinding, rfl, hopen⟩

theorem isOk_iff {ε α : Type} {result : Except ε α} : result.isOk ↔ ∃ value, result = .ok value := by
  cases result with
  | error e => simp [Except.isOk, Except.toBool]
  | ok value => simp [Except.isOk, Except.toBool]

theorem feasibleWithout_iff {c : Cluster} {request : Request} {victims : List LeaseId} :
    c.feasibleWithout request victims ↔ ∃ allocation,
      select c.graph (c.occupancyExcept (c.evicts victims)) request c.placementBlocked =
        .ok allocation :=
  isOk_iff

/-- After an eviction the request fits exactly when the projection says so. -/
theorem Evicted.allocates_iff {c c' : Cluster} {victims : List LeaseId} {request : Request}
    (h : Evicted c victims c') (hc : LeasesWellFormed c.leases) (hc' : LeasesWellFormed c'.leases) :
    (∃ allocation, c'.allocate request = .ok allocation) ↔ c.feasibleWithout request victims := by
  have hblocked : c'.placementBlocked = c.placementBlocked := by
    simp only [placementBlocked, nodeState, h.spared.graph, h.spared.nodeStates]
  rw [feasibleWithout_iff, allocate, h.occupancy hc hc', h.spared.graph, hblocked]

/-- Preemption plans work. The plan says that the request fits exactly when it
does, that eviction is in vain only when evicting every lease it may preempt
is, and otherwise names the shortest list of candidates that makes room: once
they are revoked and their bindings fenced, in any order, the request fits. -/
theorem preemption_plan_works (events : List Event) (request : Request) :
    (((run events).preemptionPlan request).outcome = .alreadyFeasible ↔
      ∃ allocation, (run events).allocate request = .ok allocation) ∧
    (((run events).preemptionPlan request).outcome = .notFeasible →
      ∀ except : List LeaseId, (∀ id, id ∈ except ↔ ∃ root, (run events).Preemptible request root ∧
        (id = root ∨ id ∈ (run events).descendantsPostorder root)) →
      ∀ allocation, select (run events).graph ((run events).occupancyExcept except) request
        (run events).placementBlocked ≠ .ok allocation) ∧
    (((run events).preemptionPlan request).outcome = .planned →
      (∀ victim ∈ ((run events).preemptionPlan request).victims,
        (run events).Preemptible request victim) ∧
      (∀ fewer, fewer <+: ((run events).preemptionPlan request).victims →
        fewer ≠ ((run events).preemptionPlan request).victims → ∀ allocation,
          select (run events).graph ((run events).occupancyExcept ((run events).evicts fewer)) request
            (run events).placementBlocked ≠ .ok allocation) ∧
      (∀ (id : BindingId) (binding : Binding), (run events).bindings[id]? = some binding →
        binding.lease ∈ ((run events).preemptionPlan request).victims →
        binding.state.isClosed = false → ∃ machine session,
          (run events).graph.machineOf binding.node = some machine ∧
            (run events).sessions[machine]? = some session) ∧
      ∀ commands, (∀ command, command ∈ commands ↔
          (run events).Evicting ((run events).preemptionPlan request).victims command) →
        Runs.Along take Accepted (run events) (evicting commands) ∧
          ∃ allocation, (run (events ++ evicting commands)).allocate request = .ok allocation) := by
  have hleases := (wellFormed_run events).leases
  refine ⟨alreadyFeasible_iff.trans isOk_iff, ?_, ?_⟩
  · intro hvain except hexcept allocation hselect
    have hfull : (select (run events).graph (run events).occupancy request
        (run events).placementBlocked).isOk = false := by
      rw [← Bool.not_eq_true, ← alreadyFeasible_iff, hvain]
      nofun
    have hnone := ((preemptionPlan_ends hfull).exhausted hvain).2
    have hsame : (run events).occupancyExcept except = (run events).occupancyExcept
        ((run events).evicts (((run events).preemptionCandidates request).map Lease.id)) := by
      refine occupancyExcept_congr fun id => ?_
      rw [hexcept, mem_evicts]
      simp only [mem_preemptionCandidates hleases]
    rw [hsame] at hselect
    rw [feasibleWithout_iff.mpr ⟨allocation, hselect⟩] at hnone
    cases hnone
  · intro hplanned
    have hfull : (select (run events).graph (run events).occupancy request
        (run events).placementBlocked).isOk = false := by
      rw [← Bool.not_eq_true, ← alreadyFeasible_iff, hplanned]
      nofun
    obtain ⟨hcandidates, hfeasible, hfewer⟩ := (preemptionPlan_ends hfull).planned hplanned
    have hvictims : ∀ victim ∈ ((run events).preemptionPlan request).victims,
        (run events).Preemptible request victim :=
      fun victim hvictim => (mem_preemptionCandidates hleases).mp (hcandidates.subset hvictim)
    have hknown : ∀ victim ∈ ((run events).preemptionPlan request).victims,
        ∃ lease, (run events).leases[victim]? = some lease := by
      intro victim hvictim
      obtain ⟨lease, hlease, -⟩ := hvictims victim hvictim
      exact ⟨lease, hlease⟩
    refine ⟨hvictims, ?_, ?_, ?_⟩
    · intro fewer hbefore hne allocation hselect
      have hshort := hfewer fewer hbefore hne
      rw [feasibleWithout_iff.mpr ⟨allocation, hselect⟩] at hshort
      cases hshort
    · intro id binding hbinding _ hopen
      obtain ⟨machine, session, hmachine, hsession, -⟩ := routed_run events id binding hbinding hopen
      exact ⟨machine, session, hmachine, hsession⟩
    · intro commands hcommands
      refine ⟨(evicting_run hknown fun command => (hcommands command).mp).1, ?_⟩
      exact ((evicted_run hknown hcommands).allocates_iff hleases
        (wellFormed_run _).leases).mpr hfeasible

/-- A request that outranks the lease running on the gpu. -/
def Sample.urgentRequest : Request := { Sample.request with priority := 5 }

/-- Lease 1 is revoked and its gpu torn down, in either order. -/
theorem running_gpu_preempted :
    Runs.Along take Accepted (run (Sample.running .exclusive))
      (evicting [.recordBindingFenced 1 1 1, .revokeLease 1]) ∧
    ∃ allocation, (run (Sample.running .exclusive ++
      evicting [.recordBindingFenced 1 1 1, .revokeLease 1])).allocate Sample.urgentRequest =
        .ok allocation := by
  have hplan : (run (Sample.running .exclusive)).preemptionPlan Sample.urgentRequest =
      ⟨1, 5, .planned, [1], [⟨0, 1, 1, 0, true⟩]⟩ := by
    decide +kernel
  have hkeys : (run (Sample.running .exclusive)).bindings.keys = [1] := by decide +kernel
  have hview : (run (Sample.running .exclusive)).bindings[(1 : BindingId)]?.map
      (fun binding => (binding.lease, binding.node, binding.fence, binding.state)) =
      some (1, 2, 1, .active) := by
    decide +kernel
  have hmachine : (run (Sample.running .exclusive)).graph.machineOf 2 = some 1 := by decide +kernel
  have hsession : (run (Sample.running .exclusive)).sessions[(1 : NodeId)]? = some 1 := by
    decide +kernel
  obtain ⟨held, hheld, hfields⟩ := Option.map_eq_some_iff.mp hview
  simp only [Prod.mk.injEq] at hfields
  obtain ⟨hlease, hnode, hfence, hstate⟩ := hfields
  have hworks := (preemption_plan_works (Sample.running .exclusive) Sample.urgentRequest).2.2
  rw [hplan] at hworks
  refine (hworks rfl).2.2.2 _ fun command => ⟨fun hmem => ?_, fun hevicting => ?_⟩
  · simp only [List.mem_cons, List.not_mem_nil, or_false] at hmem
    rcases hmem with rfl | rfl
    · refine .inr ⟨1, held, 1, 1, hheld, by simp [hlease], by rw [hstate]; rfl, ?_, hsession, ?_⟩
      · rw [hnode, hmachine]
      · rw [hfence]
    · exact .inl ⟨1, by simp, rfl⟩
  · rcases hevicting with ⟨victim, hvictim, rfl⟩ |
      ⟨id, binding, machine, session, hbinding, -, -, hmachine', hsession', rfl⟩
    · obtain rfl := List.mem_singleton.mp hvictim
      simp
    · have hid : id = 1 := by
        have hmem : id ∈ (run (Sample.running .exclusive)).bindings.keys :=
          Std.ExtTreeMap.mem_keys.mpr (OrdMap.mem_iff.mpr ⟨binding, hbinding⟩)
        simpa [hkeys] using hmem
      subst hid
      rw [hheld] at hbinding
      cases hbinding
      rw [hnode, hmachine] at hmachine'
      cases hmachine'
      rw [hsession] at hsession'
      cases hsession'
      simp [hfence]

end Cluster
end Archon.Kernel
