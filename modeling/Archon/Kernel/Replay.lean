import Archon.Kernel.Run

/-! Replay. A replica of the cluster stands at clock zero, agreed, and skips the
checks of the wall clock. It takes every step the live cluster takes, so the log
of a run leads from the empty cluster to the replica of its end. -/
namespace Archon.Kernel.Cluster
open Fallible

/-- The cluster as a replay of its log sees it. -/
def replica (c : Cluster) : Cluster :=
  { c with epoch := 1, now := 0, agreed := true, replaying := true }

section Step
variable {c c' : Cluster} {command : Command}

theorem Retry.restamp (h : Retry c command) (epoch now : UInt64) (agreed replaying : Bool)
    (log : List Command) (hagreed : c.agreed → agreed) :
    Retry { c with epoch, now, agreed, replaying, log } command := by
  cases h with
  | reserve hwas hlease hstate howner hclaims hexpires =>
    exact .reserve (hagreed hwas) hlease hstate howner hclaims hexpires
  | promote hwas hlease hstate => exact .promote (hagreed hwas) hlease hstate
  | openLease hwas hlease howner hparent hclaims =>
    exact .openLease (hagreed hwas) hlease howner hparent hclaims
  | activate hwas hlease hstate => exact .activate (hagreed hwas) hlease hstate
  | release hdead hlease hstate => exact .release hdead hlease hstate
  | expire hlease hstate => exact .expire hlease hstate
  | complete hlease hstate => exact .complete hlease hstate
  | renew hwas hlease hstate hexpires => exact .renew (hagreed hwas) hlease hstate hexpires
  | openBinding hbinding hlease hnode hprovider hscope =>
    exact .openBinding hbinding hlease hnode hprovider hscope
  | activateBinding hbinding hlease hactive hstate =>
    exact .activateBinding hbinding hlease hactive hstate
  | fenceBinding hbinding => exact .fenceBinding hbinding
  | failBinding hbinding hclosed => exact .failBinding hbinding hclosed
  | releaseBinding hbinding => exact .releaseBinding hbinding
  | unquarantine hstate hnode => exact .unquarantine hstate hnode

/-- The cluster under another clock, epoch and history, in replay. -/
def shadow (c : Cluster) (epoch now : UInt64) (agreed : Bool) (log : List Command) : Cluster :=
  { c with epoch, now, agreed, replaying := true, log }

variable {epoch now : UInt64} {agreed : Bool} {log : List Command}

theorem Annotated.shadow {staged : Graph} (hagreed : c.agreed → agreed) (h : Annotated c command staged) :
    Annotated (c.shadow epoch now agreed log) command staged := by
  cases h with
  | adopt hwas hstaged => exact .adopt (hagreed hwas) hstaged
  | observe hobserved => exact .observe hobserved

theorem Admitted.shadow {lease : Lease} (h : Admitted c command lease) :
    Admitted (c.shadow epoch now agreed log) command lease := by
  cases h with
  | reserve hclaims hrevision hquarantine hcover =>
    exact .reserve hclaims hrevision hquarantine hcover
  | openLease hclaims hrevision hquarantine hdelegation =>
    refine .openLease hclaims hrevision hquarantine ?_
    rw [← hdelegation]
    rename_i parent _ _ _ _ _ _
    cases parent <;> rfl

theorem Advanced.shadow {id : LeaseId} {lease : Lease} {move : Lease → Lease}
    (h : Advanced c id lease command move) :
    Advanced (c.shadow epoch now agreed log) id lease command move := by
  cases h with
  | promote hstate hclaims hquarantine _ hcover =>
    exact .promote hstate hclaims hquarantine nofun hcover
  | activate hstate hrevision hquarantine _ _ hstanding hprepared =>
    refine .activate hstate hrevision hquarantine nofun nofun ?_ hprepared
    rw [← hstanding]
    cases lease.parent <;> rfl
  | renew hstate hlater _ => exact .renew hstate hlater nofun

theorem Ended.shadow {id : LeaseId} {lease : Lease} {keeps : LeaseState → Bool}
    {final : LeaseState} {last : Lease → Lease} (h : Ended c id lease command keeps final last) :
    Ended (c.shadow epoch now agreed log) id lease command keeps final last := by
  cases h with
  | fail => exact .fail
  | revoke => exact .revoke
  | expire hlive _ => exact .expire hlive nofun
  | complete hlive => exact .complete hlive

theorem Rebound.shadow {id : BindingId} {binding : Binding} {move : Binding → Binding}
    (h : Rebound c id binding command move) :
    Rebound (c.shadow epoch now agreed log) id binding command move := by
  cases h with
  | activate hlease hactive hstate => exact .activate hlease hactive hstate
  | fail hopen => exact .fail hopen
  | prepared hack hstate => exact .prepared hack hstate
  | active hack hstate => exact .active hack hstate
  | released hack => exact .released hack
  | fenced hack => exact .fenced hack
  | rebind hsession => exact .rebind hsession

theorem Restated.shadow {node : NodeId} {state : NodeState} (h : Restated c command node state) :
    Restated (c.shadow epoch now agreed log) command node state := by
  cases h with
  | direct => exact .direct
  | quarantine => exact .quarantine
  | unquarantine hstate => exact .unquarantine hstate

/-- A replay takes every step of the live cluster, whatever its clock. -/
theorem Step.shadow (hagreed : c.agreed → agreed) (h : Step c command c') :
    Step (c.shadow epoch now agreed log) command (c'.shadow epoch now agreed log) := by
  cases h with
  | retry h => exact .retry (h.restamp epoch now agreed true log hagreed)
  | install hwas hstaged hshrunk hrouted => exact .install (hagreed hwas) hstaged hshrunk hrouted
  | annotate h => exact .annotate (h.shadow hagreed)
  | enter hwas hfresh h => exact .enter (hagreed hwas) hfresh h.shadow
  | advance hwas hlease h => exact .advance (hagreed hwas) hlease h.shadow
  | release hdead hlease hstate => exact .release hdead hlease hstate
  | finish hlease h => exact .finish hlease h.shadow
  | bind hfresh hlease hstate hroot hclaim hrequired hprovider hscope hquarantine hmachine
      hsession hendpoint =>
    exact .bind hfresh hlease hstate hroot hclaim hrequired hprovider hscope hquarantine hmachine
      hsession hendpoint
  | rebind hbinding h => exact .rebind hbinding h.shadow
  | lose hack hlease => exact .lose hack hlease
  | hello hnode hkind hnewer => exact .hello hnode hkind hnewer
  | restate hcommand hallowed =>
    exact .restate hcommand.shadow ⟨hallowed.known, hallowed.retired, hallowed.clean, hallowed.vacant⟩
  | raise hnode hpositive => exact .raise hnode hpositive

theorem Step.replica (h : Step c command c') : Step c.replica command c'.replica := by
  have hend : c'.replica = c'.shadow 1 0 true c.log := by
    rw [← h.log]
    rfl
  rw [hend]
  exact h.shadow fun _ => rfl

theorem apply_replica (h : Step c command c') : ∃ effects,
    apply command c.replica = .ok effects { c' with log := c.log ++ [command] }.replica := by
  obtain ⟨effects, hdispatch⟩ := accepted_of_step h.replica
  refine ⟨effects, ?_⟩
  simp only [apply, bind_ok, modify_ok, pure_ok]
  exact ⟨effects, c'.replica, hdispatch, (), _, rfl, rfl, by simp [replica, h.log]⟩

/-- Two clusters that differ in their clock and history alone. -/
def Twin (c d : Cluster) : Prop :=
  d = { c with now := d.now, replaying := d.replaying, log := d.log }

theorem Twin.refl (c : Cluster) : Twin c c := rfl

theorem Twin.symm {d : Cluster} (h : Twin c d) : Twin d c := by
  unfold Twin at h ⊢
  rw [h]

theorem Twin.trans {d e : Cluster} (h : Twin c d) (h' : Twin d e) : Twin c e := by
  unfold Twin at h h' ⊢
  rw [h] at h'
  exact h'

theorem Step.kept (h : Step c command c') : c'.epoch = c.epoch ∧ c'.agreed = c.agreed := by
  cases h <;> exact ⟨rfl, rfl⟩

/-- Whatever one cluster accepts, its twin in replay accepts, and they stay twins. -/
theorem Twin.apply {d : Cluster} {effects : List Effect} (h : Twin c d) (hreplaying : d.replaying)
    (happly : apply command c = .ok effects c') :
    ∃ again d', apply command d = .ok again d' ∧ Twin c' d' ∧ d'.replaying := by
  obtain ⟨next, hstep, rfl⟩ := apply_ok_iff.mp ⟨effects, happly⟩
  have hstart : d = c.shadow c.epoch d.now c.agreed d.log := by
    rw [h, hreplaying]
    rfl
  have hshadow : Step d command (next.shadow c.epoch d.now c.agreed d.log) := by
    rw [hstart]
    exact hstep.shadow id
  obtain ⟨again, hagain⟩ := apply_ok_iff.mpr ⟨_, hshadow, rfl⟩
  refine ⟨again, _, hagain, ?_, rfl⟩
  unfold Twin
  rw [← hstep.kept.1, ← hstep.kept.2]
  rfl

end Step

theorem applyAll_concat {commands : List Command} {command : Command} {c c' next : Cluster}
    {effects : List Effect} (hbefore : applyAll commands c = .ok c')
    (happly : apply command c' = .ok effects next) :
    applyAll (commands ++ [command]) c = .ok next := by
  induction commands generalizing c with
  | nil =>
    cases hbefore
    simp [applyAll, happly]
  | cons first rest ih =>
    simp only [List.cons_append, applyAll] at hbefore ⊢
    split at hbefore
    · exact ih hbefore
    · cases hbefore

/-- The log of a run leads to the replica of its end. -/
theorem applyAll_log (events : List Event) :
    applyAll (run events).log (new.setReplaying true) = .ok (run events).replica := by
  induction events using List.reverseRecOn with
  | nil => rfl
  | append_singleton before event ih =>
    -- only an accepted command reaches the log, and its replica accepts it too
    have htaken := taken_run before event
    generalize run before = c, run (before ++ [event]) = c' at ih htaken
    cases htaken with
    | accepted hstep =>
      obtain ⟨effects, happly⟩ := apply_replica hstep
      exact applyAll_concat ih happly
    | refused => exact ih
    | clock => exact ih
    | agreement => exact ih
    | epoch => exact ih

/-- Replaying the log of any run succeeds and rebuilds every table; only clock,
agreement and epoch, which the log does not carry, may differ. -/
theorem replay_refines_run (events : List Event) : ∃ replayed,
    replay (run events).log = .ok replayed ∧ replayed.graph = (run events).graph ∧
      replayed.leases = (run events).leases ∧ replayed.bindings = (run events).bindings ∧
      replayed.sessions = (run events).sessions ∧ replayed.lastFence = (run events).lastFence ∧
      replayed.nodeStates = (run events).nodeStates ∧ replayed.log = (run events).log := by
  refine ⟨(run events).replica.setReplaying false, ?_, rfl, rfl, rfl, rfl, rfl, rfl, rfl⟩
  simp [replay, applyAll_log]

end Archon.Kernel.Cluster
