import Archon.Kernel.Run

/-! What an accepted command leaves alone, for callers that only see the cluster
before and after it. -/
namespace Archon.Kernel

/-- Whether a command announces an agent session. -/
def isHello : Command → Bool
  | .setAgentSession _ _ => true
  | _ => false

def opensLease : Command → Bool
  | .openLease .. | .reserveLease .. => true
  | _ => false

/-- Sessions and leases are the controller's own to begin. -/
def isGuarded (command : Command) : Bool := isHello command || opensLease command

/-- The states past preparation. -/
def LeaseState.isSettled : LeaseState → Bool
  | .reserved | .preparing => false
  | _ => true

namespace Cluster

/-- A cluster that some run reaches. -/
def Reachable (c : Cluster) : Prop := ∃ events, c = run events

theorem Reachable.wellFormed {c : Cluster} (h : Reachable c) : WellFormed c := by
  obtain ⟨events, rfl⟩ := h
  exact wellFormed_run events

theorem Reachable.take {c : Cluster} (h : Reachable c) (event : Event) : Reachable (c.take event) := by
  obtain ⟨events, rfl⟩ := h
  exact ⟨events ++ [event], (run_concat events event).symm⟩

section Apply
variable {c c' : Cluster} {command : Command} {effects : List Effect}

theorem take_of_apply_ok (h : apply command c = .ok effects c') : c.take (.apply command) = c' := by
  simp [take, h]

theorem Reachable.apply_ok (hc : Reachable c) (h : apply command c = .ok effects c') : Reachable c' := by
  rw [← take_of_apply_ok h]
  exact hc.take _

theorem Reachable.refused {e : Error} {left : Cluster} (hc : Reachable c)
    (h : apply command c = .error e left) : left = c :=
  apply_atomic hc.wellFormed command e left h

theorem step_of_apply (h : apply command c = .ok effects c') :
    ∃ next, Step c command next ∧ c' = { next with log := next.log ++ [command] } :=
  apply_ok_iff.mp ⟨effects, h⟩

theorem sessions_of_apply (hplain : isHello command = false) (h : apply command c = .ok effects c') :
    c'.sessions = c.sessions := by
  obtain ⟨next, hstep, rfl⟩ := step_of_apply h
  cases hstep <;> first | rfl | simp [isHello] at hplain

theorem plain_of_unguarded (h : isGuarded command = false) :
    isHello command = false ∧ opensLease command = false := Bool.or_eq_false_iff.mp h

theorem sessions_of_hello {machine : NodeId} {session : UInt64}
    (h : apply (.setAgentSession machine session) c = .ok effects c') :
    c' = { c with sessions := c.sessions.insert machine session,
                  log := c.log ++ [.setAgentSession machine session] } ∧
      ∀ current, c.sessions[machine]? = some current → current ≤ session := by
  obtain ⟨next, hstep, rfl⟩ := step_of_apply h
  cases hstep with
  | hello _ _ hnewer => exact ⟨rfl, hnewer⟩
  | retry hcase => cases hcase
  | install _ hcase => cases hcase
  | annotate hcase => cases hcase
  | enter _ _ hcase => cases hcase
  | advance _ _ hcase => cases hcase
  | finish _ hcase => cases hcase
  | rebind _ hcase => cases hcase
  | restate hcase => cases hcase

theorem rebindSession_eq {id : BindingId} {session : UInt64}
    (h : apply (.rebindSession id session) c = .ok effects c') :
    c' = { c with
      bindings := c.bindings.modify id fun binding => { binding with agentSession := session }
      log := c.log ++ [.rebindSession id session] } := by
  obtain ⟨next, hstep, rfl⟩ := step_of_apply h
  cases hstep with
  | rebind hbinding hcase =>
    cases hcase with
    | rebind => rfl
  | retry hcase => cases hcase
  | install _ hcase => cases hcase
  | annotate hcase => cases hcase
  | enter _ _ hcase => cases hcase
  | advance _ _ hcase => cases hcase
  | finish _ hcase => cases hcase
  | restate hcase => cases hcase

theorem bindings_of_end {id : LeaseId} (hcommand : (∃ code, command = .completeLease id code) ∨
      command = .revokeLease id) (h : apply command c = .ok effects c') :
    c'.bindings = c.bindings ∧ c'.graph = c.graph ∧ c'.sessions = c.sessions := by
  obtain ⟨next, hstep, rfl⟩ := step_of_apply h
  rcases hcommand with ⟨code, rfl⟩ | rfl
  all_goals cases hstep with
  | retry => exact ⟨rfl, rfl, rfl⟩
  | finish => exact ⟨rfl, rfl, rfl⟩
  | install _ hcase => cases hcase
  | annotate hcase => cases hcase
  | enter _ _ hcase => cases hcase
  | advance _ _ hcase => cases hcase
  | rebind _ hcase => cases hcase
  | restate hcase => cases hcase

theorem bindings_of_apply (h : apply command c = .ok effects c') :
    OrdMap.Evolves (fun _ => Binding.Moves) (c.FreshBinding command) c.bindings c'.bindings := by
  obtain ⟨next, hstep, rfl⟩ := step_of_apply h
  have hevolves := bindings_evolve hstep
  exact hevolves

theorem leases_of_apply (hc : WellFormed c) (h : apply command c = .ok effects c') :
    OrdMap.Evolves (fun _ => Lease.Moves) (c.FreshLease command) c.leases c'.leases := by
  obtain ⟨next, hstep, rfl⟩ := step_of_apply h
  have hevolves := leases_evolve hc.leases hstep
  exact hevolves

theorem leaseKeys_of_apply (hc : WellFormed c) (hplain : opensLease command = false)
    (h : apply command c = .ok effects c') (id : LeaseId) :
    c'.leases[id]? = none ↔ c.leases[id]? = none := by
  have hevolves := leases_of_apply hc h
  constructor
  · intro hnone
    cases hlease : c.leases[id]? with
    | none => rfl
    | some lease =>
      obtain ⟨after, hafter, -⟩ := hevolves.kept id lease hlease
      rw [hnone] at hafter
      cases hafter
  · intro hnone
    cases hlease : c'.leases[id]? with
    | none => rfl
    | some lease =>
      obtain ⟨-, hadmitted⟩ := hevolves.made id lease hnone hlease
      cases hadmitted <;> cases hplain

theorem endLease_active {keeps : LeaseState → Bool} {final : LeaseState} {lease : Lease}
    (hfinal : final ≠ .active) (h : (endLease keeps final lease).state = .active) :
    lease.state = .active := by
  unfold endLease at h
  split at h
  · exact h
  · exact absurd h hfinal

theorem Ended.active {id : LeaseId} {lease : Lease} {keeps : LeaseState → Bool} {final : LeaseState}
    {last : Lease → Lease} (h : Ended c id lease command keeps final last) : final ≠ .active ∧
      ∀ {other : Lease}, (last other).state = .active → other.state = .active := by
  cases h with
  | fail => exact ⟨by simp, fun hlast => endLease_active (by simp) hlast⟩
  | revoke => exact ⟨by simp, fun hlast => endLease_active (by simp) hlast⟩
  | expire => exact ⟨by simp, fun hlast => by cases hlast⟩
  | @complete code =>
    have hfinal : finalState code ≠ .active := by
      unfold finalState
      split <;> simp
    exact ⟨hfinal, fun hlast => absurd hlast hfinal⟩

/-- A lease becomes active only by its activation. -/
theorem active_of_apply (hc : WellFormed c) (h : apply command c = .ok effects c') {id : LeaseId}
    {after : Lease} (hafter : c'.leases[id]? = some after) (hactive : after.state = .active) :
    (∃ lease, c.leases[id]? = some lease ∧ lease.state = .active) ∨ command = .activateLease id := by
  obtain ⟨next, hstep, rfl⟩ := step_of_apply h
  rcases (leases_step hc.leases hstep).origin hafter with ⟨lease, hlease, hmove⟩ | ⟨-, hfresh⟩
  · refine or_iff_not_imp_right.mpr fun hcommand => ⟨lease, hlease, ?_⟩
    cases hmove with
    | kept => exact hactive
    | advanced hadvanced =>
      cases hadvanced with
      | promote => cases hactive
      | activate => exact absurd rfl hcommand
      | renew => exact hactive
    | released => cases hactive
    | ended hended => exact hended.active.2 hactive
    | descended _ hended => exact endLease_active hended.active.1 hactive
    | lost => exact endLease_active (by simp) hactive
  · obtain ⟨-, hadmitted⟩ := hfresh
    cases hadmitted <;> cases hactive

theorem endLease_settled {keeps : LeaseState → Bool} {final : LeaseState} {lease : Lease}
    (hfinal : final.isSettled) (h : lease.state.isSettled) :
    (endLease keeps final lease).state.isSettled := by
  unfold endLease
  split
  · exact h
  · exact hfinal

theorem Ended.settled {id : LeaseId} {lease : Lease} {keeps : LeaseState → Bool} {final : LeaseState}
    {last : Lease → Lease} (h : Ended c id lease command keeps final last) : final.isSettled ∧
      ∀ {other : Lease}, other.state.isSettled → (last other).state.isSettled := by
  cases h with
  | fail => exact ⟨rfl, fun hother => endLease_settled rfl hother⟩
  | revoke => exact ⟨rfl, fun hother => endLease_settled rfl hother⟩
  | expire => exact ⟨rfl, fun _ => rfl⟩
  | @complete code =>
    have hfinal : (finalState code).isSettled := by
      unfold finalState
      split <;> rfl
    exact ⟨hfinal, fun _ => hfinal⟩

/-- A lease past its preparation never goes back. -/
theorem settled_of_apply (hc : WellFormed c) (h : apply command c = .ok effects c') {id : LeaseId}
    {lease : Lease} (hlease : c.leases[id]? = some lease) (hsettled : lease.state.isSettled) :
    ∃ after, c'.leases[id]? = some after ∧ after.state.isSettled ∧
      (lease.state.isLive = false → after.state.isLive = false) := by
  obtain ⟨next, hstep, rfl⟩ := step_of_apply h
  obtain ⟨after, hafter, hmove⟩ := (leases_step hc.leases hstep).kept id lease hlease
  refine ⟨after, hafter, ?_, fun hdead => ?_⟩
  · cases hmove with
    | kept => exact hsettled
    | advanced hadvanced =>
      cases hadvanced with
      | promote hstate =>
        rw [hstate] at hsettled
        cases hsettled
      | activate => rfl
      | renew => exact hsettled
    | released => rfl
    | ended hended => exact hended.settled.2 hsettled
    | descended _ hended => exact endLease_settled hended.settled.1 hsettled
    | lost => exact endLease_settled rfl hsettled
  · cases hlive : after.state.isLive with
    | false => rfl
    | true =>
      rw [(hmove.moves (hc.leases.resolved hlease)).live hlive] at hdead
      cases hdead

/-- A binding that is unknown or closed is not open. -/
def NotOpen (c : Cluster) (id : BindingId) : Prop :=
  ∀ record, c.bindings[id]? = some record → record.state.isClosed

theorem NotOpen.of_apply {id : BindingId} (hid : NotOpen c id)
    (hcommand : ∀ lease node provider scope, command ≠ .openBinding id lease node provider scope)
    (h : apply command c = .ok effects c') : NotOpen c' id := by
  intro record hrecord
  rcases (bindings_of_apply h).origin hrecord with ⟨before, hbefore, hmoves⟩ | ⟨-, hfresh⟩
  · exact hmoves.closed (hid before hbefore)
  · exact absurd hfresh.command (hcommand _ _ _ _)

theorem failLease_ok {id : LeaseId} {lease : Lease} (hlease : c.leases[id]? = some lease)
    (reason : String) : ∃ effects c', apply (.failLease id reason) c = .ok effects c' := by
  have hended : Ended c id lease (.failLease id reason) endedKeeps .failed
      (endLease endedKeeps .failed) := .fail
  obtain ⟨effects, happly⟩ := apply_ok_iff.mpr ⟨_, Step.finish hlease hended, rfl⟩
  exact ⟨effects, _, happly⟩

theorem failLease_dead (hc : WellFormed c) {id : LeaseId} {lease : Lease} {reason : String}
    (hlease : c.leases[id]? = some lease) (h : apply (.failLease id reason) c = .ok effects c') :
    ∃ after, c'.leases[id]? = some after ∧ after.state.isLive = false := by
  have hended : Ended c id lease (.failLease id reason) endedKeeps .failed
      (endLease endedKeeps .failed) := .fail
  obtain ⟨_, happly⟩ := apply_ok_iff.mpr ⟨_, Step.finish hlease hended, rfl⟩
  rw [h] at happly
  cases happly
  refine ⟨endLease endedKeeps .failed lease, ?_, ?_⟩
  · simp only [get_endTree hc.leases, if_true, hlease, Option.map_some]
  · unfold endLease
    cases hstate : lease.state <;> simp [endedKeeps, hstate, LeaseState.isLive]

end Apply

/-- A lease with a binding is not reserved any more. -/
def BoundUnreserved (c : Cluster) : Prop :=
  ∀ (id : BindingId) (record : Binding) (lease : Lease), c.bindings[id]? = some record →
    c.leases[record.lease]? = some lease → lease.state ≠ .reserved

theorem boundUnreserved_run (events : List Event) : BoundUnreserved (run events) := by
  refine run_invariant ?_ (fun _ _ _ _ _ h => h) ?_ events
  · intro id record lease hrecord
    simp [new] at hrecord
  · intro before command c' hstep h id record lease hrecord hlease hreserved
    have hc := wellFormed_run before
    rcases (bindings_step hstep).origin hrecord with ⟨old, hold, hmoved⟩ | ⟨hnone, hfresh⟩
    · obtain ⟨holder, hholder, -⟩ := hc.bindings.held hold
      rw [hmoved.moves.lease] at hlease
      have hmoves := (leases_evolve hc.leases hstep).moved hholder hlease
      exact h id old holder hold hholder (hmoves.reserved hreserved)
    · obtain ⟨holder, hholder, hpreparing, -⟩ := hfresh.lease
      have hmoves := (leases_evolve hc.leases hstep).moved hholder hlease
      have hbefore := hmoves.reserved hreserved
      rw [hpreparing] at hbefore
      cases hbefore

theorem Reachable.settled_of_binding {c : Cluster} (h : Reachable c) {id : BindingId}
    {record : Binding} {lease : Lease} (hrecord : c.bindings[id]? = some record)
    (hlease : c.leases[record.lease]? = some lease) (hstate : lease.state ≠ .preparing) :
    lease.state.isSettled := by
  obtain ⟨events, rfl⟩ := h
  have hunreserved := boundUnreserved_run events id record lease hrecord hlease
  cases hs : lease.state with
  | reserved => exact absurd hs hunreserved
  | preparing => exact absurd hs hstate
  | _ => rfl

end Cluster
end Archon.Kernel
