import Archon.Node.Moves

/-! Every operation is a sequence of moves. -/
namespace Archon.Node.Service
open Archon.Kernel Fallible

variable {own : Bool} {w : World} {α β : Type}

/-! Reading and writing. -/

theorem self_run : self w = .ok w.service w := rfl

theorem update_run (f : NodeService → NodeService) : update f w = .ok () (w.update f) := rfl

theorem observe_run (seen : Observation) : observe seen w = .ok () (w.observe seen) := rfl

section Rules
variable {move : World → World → Prop}

theorem follows_self {next : NodeService → ServiceM β} (h : Follows move w (next w.service)) :
    Follows move w (self >>= next) := h

theorem follows_update {f : NodeService → NodeService} (h : move w (w.update f)) :
    Follows move w (update f) := .single h

theorem follows_update_bind {f : NodeService → NodeService} {next : Unit → ServiceM β}
    (hmove : move w (w.update f)) (h : Follows move (w.update f) (next ())) :
    Follows move w (update f >>= next) := .head hmove h

/-- What is seen and the change that goes with it are one move. -/
theorem follows_observe_update {seen : Observation} {f : NodeService → NodeService}
    {next : Unit → ServiceM β} (hmove : move w ((w.observe seen).update f))
    (h : Follows move ((w.observe seen).update f) (next ())) :
    Follows move w (observe seen >>= fun _ => update f >>= next) := .head hmove h

theorem after_check (result : Except Error α) : after (check result) w = w := by
  cases result <;> rfl

theorem check_ok {result : Except Error α} {a : α} {t : World} :
    check result w = .ok a t ↔ result = .ok a ∧ w = t := by
  unfold check
  cases result with
  | ok b => simp
  | error e => simp

theorem follows_check_bind {result : Except Error α} {next : α → ServiceM β}
    (h : ∀ a, result = .ok a → Follows move w (next a)) : Follows move w (check result >>= next) := by
  refine (Follows.still (after_check result)).bind fun a t ht => ?_
  obtain ⟨hok, rfl⟩ := check_ok.mp ht
  exact h a hok

theorem after_tolerate (program : ServiceM α) : after (tolerate program) w = after program w := by
  unfold after tolerate
  cases program w with
  | ok a t => rfl
  | error fault t => cases fault <;> rfl

theorem tolerate_follows {program : ServiceM α} (h : Follows move w program) :
    Follows move w (tolerate program) := by
  unfold Follows
  rw [after_tolerate]
  exact h

theorem tolerate_moving {program : ServiceM α} (h : Moving move program) :
    Moving move (tolerate program) := fun s => tolerate_follows (h s)

theorem onRefusal_follows {program : ServiceM α} {cleanup : ServiceM Unit}
    (h : Follows move w program) (hcleanup : ∀ e t, program w = .error (.err e) t → Follows move t cleanup) :
    Follows move w (onRefusal program cleanup) := by
  unfold Follows at h ⊢
  unfold after onRefusal
  unfold after at h
  cases hrun : program w with
  | ok a t =>
    rw [hrun] at h
    exact h
  | error fault t =>
    rw [hrun] at h
    cases fault with
    | panic => exact h
    | err e => exact h.trans ((hcleanup e t hrun).bind fun _ _ _ => .throw _)

end Rules

/-! The kernel and the sink. -/

theorem self_bind_run (next : NodeService → ServiceM β) : (self >>= next) w = next w.service w := rfl

theorem persist_run (command : Option Command) : persist command w =
    .ok () (if w.service.durableSink then w.observe (.persisted command) else w) := by
  unfold persist
  rw [self_bind_run]
  split <;> rfl

theorem commit_run_ok {command : Command} {effects : List Effect} {cluster : Cluster}
    (h : Cluster.apply command w.service.cluster = .ok effects cluster) :
    commit command w = .ok () (w.commit command effects cluster) := by
  unfold commit
  simp only [self_bind_run, h, bind_ok]
  exact ⟨(), _, observe_run _, (), _, update_run _, (), _, persist_run _, update_run _⟩

theorem commit_run_error {command : Command} {e : Error} {left : Cluster}
    (h : Cluster.apply command w.service.cluster = .error e left) :
    commit command w = .error (.err e) (w.update fun s => { s with cluster := left }) := by
  unfold commit
  simp only [self_bind_run, h]
  rfl

theorem persist_moving (command : Option Command) (hnone : command = none) :
    Moving (Move own) (persist command) := by
  intro w
  unfold Follows
  rw [after_of_ok (persist_run command)]
  split
  · rename_i hsink
    rw [hnone]
    exact .single (.persist hsink)
  · exact .refl

theorem commit_follows {command : Command} (h : isGuarded command = false) :
    Moving (Move own) (commit command) := by
  intro w
  unfold Follows
  cases happly : Cluster.apply command w.service.cluster with
  | ok effects cluster =>
    rw [after_of_ok (commit_run_ok happly)]
    exact .single (.commit h happly)
  | error e left =>
    rw [after_of_error (commit_run_error happly)]
    exact .single (.refuse happly)

/-! Calls. -/

/-- Only calls were made: nothing else differs. -/
def Called (w u : World) : Prop :=
  ∃ inflight extra, u = ⟨{ w.service with inflight }, w.trace ++ extra⟩

instance : Std.Refl Called := ⟨fun w => ⟨w.service.inflight, [], by simp⟩⟩

instance : IsTrans World Called := by
  constructor
  rintro w - - ⟨inflight, extra, rfl⟩ ⟨inflight', extra', rfl⟩
  exact ⟨inflight', extra ++ extra', by simp⟩

theorem dispatch_run (machine : NodeId) (tag : Tag) (request : AgentRequest) :
    dispatch machine tag request w = .ok () (w.call machine tag request) := by
  unfold World.call dispatch
  simp only [bind_ok]
  refine ⟨(), _, update_run _, _, _, self_run, ?_⟩
  by_cases hlive : w.service.agents[machine]? = some true
  · simp only [World.update, hlive, ↓reduceIte]
    rfl
  · simp only [World.update, hlive, ↓reduceIte]
    rfl

theorem dispatch_called (machine : NodeId) (tag : Tag) (request : AgentRequest) :
    Moving Called (dispatch machine tag request) := by
  intro w
  refine .single ?_
  rw [after_of_ok (dispatch_run machine tag request)]
  unfold World.call
  split
  · exact ⟨_, _, rfl⟩
  · exact ⟨_, [], by simp [World.update]; rfl⟩

theorem dispatch_follows {machine : NodeId} {tag : Tag} {request : AgentRequest}
    (h : Calls w.service machine tag request) : Follows (Move own) w (dispatch machine tag request) := by
  unfold Follows
  rw [after_of_ok (dispatch_run machine tag request)]
  exact .single (.call h)

theorem startExecutionOn_follows {lease : LeaseId} {execution : ExecutionSpec} {machine : NodeId}
    (hactive : w.service.leaseIsActive lease) (hprogram : w.service.hasProgram lease)
    (hproven : allProviderActive w.service lease) :
    Follows (Move own) w (startExecutionOn lease execution machine) := by
  unfold startExecutionOn
  refine follows_self (.ite (fun _ => .pure ()) fun hrecovered => ?_)
  split
  · exact .pure ()
  · rename_i session hsession
    refine .ite (fun _ => .pure ()) fun hnew => ?_
    simp only [Bool.or_eq_true, decide_eq_true_eq, not_or] at hnew
    exact follows_check_bind fun limits _ => dispatch_follows
      (.start hactive hprogram hproven hrecovered hsession hnew.1 hnew.2)

theorem startExecutionOn_called (lease : LeaseId) (execution : ExecutionSpec) (machine : NodeId) :
    Moving Called (startExecutionOn lease execution machine) := by
  intro w
  unfold startExecutionOn
  refine follows_self (.ite (fun _ => .pure ()) fun _ => ?_)
  split
  · exact .pure ()
  · exact .ite (fun _ => .pure ()) fun _ => follows_check_bind fun _ _ => dispatch_called _ _ _ _

theorem maybeStartExecutions_moving (lease : LeaseId) :
    Moving (Move own) (maybeStartExecutions lease) := by
  intro w
  unfold maybeStartExecutions
  refine follows_self (.ite (fun _ => .pure ()) fun hactive => ?_)
  split
  · exact .pure ()
  · rename_i workload owner hrequest
    refine .ite (fun _ => .pure ()) fun hprogram => .ite (fun _ => .pure ()) fun hproven => ?_
    simp only [Bool.not_eq_true', Bool.not_eq_false] at hactive hprogram hproven
    have hcarries : w.service.hasProgram lease := by simp [NodeService.hasProgram, hrequest, hprogram]
    -- the passes only call, so what the first one checked still stands
    refine @Follows.forM _ _ _ _ _ (Called w) _ _ (Std.Refl.refl w) ?_ ?_
    · rintro machine - t ⟨inflight, extra, rfl⟩
      exact startExecutionOn_follows hactive hcarries hproven
    · intro machine _ t ht _ u hu
      exact IsTrans.trans _ _ _ ht
        ((startExecutionOn_called lease workload.execution machine t).ok_related hu)

/-- A member is asked at most once per session; a session is needed to ask. -/
theorem stopExecutionOn_follows {lease : LeaseId} {machine : NodeId} (hterminal : w.service.leaseIsTerminal lease) :
    Follows (Move own) w (stopExecutionOn lease machine) := by
  unfold stopExecutionOn
  refine follows_self ?_
  split
  · exact .pure ()
  · rename_i session hsession
    exact .ite (fun _ => .pure ()) fun _ => dispatch_follows (.stop hterminal hsession)

theorem stopExecutionOn_called (lease : LeaseId) (machine : NodeId) :
    Moving Called (stopExecutionOn lease machine) := by
  intro w
  unfold stopExecutionOn
  refine follows_self ?_
  split
  · exact .pure ()
  · exact .ite (fun _ => .pure ()) fun _ => dispatch_called _ _ _ _

theorem maybeStopExecutions_moving (lease : LeaseId) :
    Moving (Move own) (maybeStopExecutions lease) := by
  intro w
  unfold maybeStopExecutions
  refine follows_self (.ite (fun _ => .pure ()) fun hterminal => .ite (fun _ => .pure ()) fun _ => ?_)
  simp only [Bool.not_eq_true', Bool.not_eq_false] at hterminal
  -- as for starts, the passes only call
  refine @Follows.forM _ _ _ _ _ (Called w) _ _ (Std.Refl.refl w) ?_ ?_
  · rintro machine - t ⟨inflight, extra, rfl⟩
    exact stopExecutionOn_follows hterminal
  · intro machine _ t ht _ u hu
    exact IsTrans.trans _ _ _ ht ((stopExecutionOn_called lease machine t).ok_related hu)

theorem maybeStopExecutions_called (lease : LeaseId) : Moving Called (maybeStopExecutions lease) := by
  intro w
  unfold maybeStopExecutions
  exact follows_self (.ite (fun _ => .pure ()) fun _ => .ite (fun _ => .pure ()) fun _ =>
    Moving.forM (fun machine _ => stopExecutionOn_called lease machine) w)

theorem requestStatusOnMachine_moving (lease : LeaseId) (machine : NodeId) :
    Moving (Move own) (requestStatusOnMachine lease machine) := by
  intro w
  unfold requestStatusOnMachine
  refine follows_self ?_
  split
  · exact .pure ()
  · rename_i session hsession
    exact .ite (fun _ => .pure ()) fun _ => dispatch_follows (.status hsession)

theorem requestStatusOnMachine_called (lease : LeaseId) (machine : NodeId) :
    Moving Called (requestStatusOnMachine lease machine) := by
  intro w
  unfold requestStatusOnMachine
  refine follows_self ?_
  split
  · exact .pure ()
  · exact .ite (fun _ => .pure ()) fun _ => dispatch_called _ _ _ _

theorem requestStatus_moving (lease : LeaseId) : Moving (Move own) (requestStatus lease) := by
  intro w
  exact follows_self (Moving.forM (fun machine _ => requestStatusOnMachine_moving lease machine) w)

theorem tryCommitLenient_moving {command : Command} (h : isGuarded command = false) :
    Moving (Move own) (tryCommitLenient command) :=
  Moving.map_iff.mpr (tolerate_moving (commit_follows h))

theorem commitLenient_moving {command : Command} (h : isGuarded command = false) :
    Moving (Move own) (commitLenient command) :=
  (tryCommitLenient_moving h).bind fun _ => .pure ()

theorem maybeActivate_moving (lease : LeaseId) : Moving (Move own) (maybeActivate lease) := by
  intro w
  unfold maybeActivate
  refine follows_self (.ite (fun _ => .pure ()) fun _ => .ite (fun _ => .pure ()) fun _ => ?_)
  exact (commitLenient_moving rfl w).bind fun _ t _ =>
    Moving.forM (fun _ _ => commitLenient_moving rfl) t

theorem report_follows {event : RecoveryEvent} (h : ∀ lease machine running exitCode,
      event = .memberRecovered lease machine running exitCode →
        Recovers w lease machine running exitCode) :
    Follows (Move own) w (report event) := .single (.report event h)

/-- Every other decision is reported as it is made. -/
theorem report_moving {event : RecoveryEvent}
    (h : ∀ lease machine running exitCode, event ≠ .memberRecovered lease machine running exitCode) :
    Moving (Move own) (report event) :=
  fun _ => report_follows fun _ _ _ _ heq => absurd heq (h _ _ _ _)

/-! Routing. -/

theorem rebindStale_moving (id : BindingId) : Moving (Move own) (rebindStale id) := by
  intro w
  unfold rebindStale
  refine follows_self (follows_check_bind fun record _ => ?_)
  split
  · exact .ite (fun _ => commit_follows rfl _) fun _ => .pure ()
  · exact .pure ()

/-- What has to wait for a stop stays the same. -/
structure HoldsKept (w u : World) : Prop where
  awaits : ∀ id, awaitsStop u.service id = awaitsStop w.service id
  trace : w.trace <+: u.trace

instance : Std.Refl HoldsKept := ⟨fun _ => ⟨fun _ => rfl, List.prefix_rfl⟩⟩

instance : IsTrans World HoldsKept := by
  constructor
  intro w t u h h'
  exact ⟨fun id => (h'.awaits id).trans (h.awaits id), h.trace.trans h'.trace⟩

theorem Called.holdsKept {u : World} (h : Called w u) : HoldsKept w u := by
  obtain ⟨inflight, extra, rfl⟩ := h
  exact ⟨fun _ => rfl, List.prefix_append _ _⟩

theorem trace_commit_eq (command : Command) (effects : List Effect) (cluster : Cluster) :
    (w.commit command effects cluster).trace = w.trace ++ ⟨w.service, .committed command⟩ ::
      if w.service.durableSink then [⟨{ w.service with cluster }, .persisted (some command)⟩]
      else [] := by
  unfold World.commit World.update World.observe
  simp only
  split
  · simp only [List.append_assoc]
    rfl
  · rfl

theorem trace_commit (command : Command) (effects : List Effect) (cluster : Cluster) :
    w.trace <+: (w.commit command effects cluster).trace := by
  rw [trace_commit_eq]
  exact List.prefix_append _ _

theorem service_commit (command : Command) (effects : List Effect) (cluster : Cluster) :
    (w.commit command effects cluster).service =
      { w.service with cluster, pending := w.service.pending ++ effects } := by
  unfold World.commit World.update World.observe
  simp only
  split <;> rfl

theorem rebind_holdsKept {id : BindingId} {session : UInt64} {u : World}
    (h : commit (.rebindSession id session) w = .ok () u) : HoldsKept w u := by
  cases happly : Cluster.apply (.rebindSession id session) w.service.cluster with
  | error e left =>
    rw [commit_run_error happly] at h
    cases h
  | ok effects cluster =>
    rw [commit_run_ok happly] at h
    cases h
    have hcluster := Cluster.rebindSession_eq happly
    refine ⟨fun other => ?_, trace_commit _ _ _⟩
    rw [service_commit, hcluster]
    unfold awaitsStop
    rw [OrdMap.get_modify]
    split
    · rename_i heq
      subst heq
      cases w.service.cluster.bindings[id]? <;> rfl
    · rfl

theorem rebindStale_holdsKept {id : BindingId} {u : World} (h : rebindStale id w = .ok () u) :
    HoldsKept w u := by
  unfold rebindStale at h
  simp only [self_bind_run, bind_ok, check_ok] at h
  obtain ⟨record, t, ⟨-, rfl⟩, hrest⟩ := h
  generalize ((w.service.cluster.graph.machineOf record.node).bind fun machine =>
    w.service.cluster.sessions[machine]?) = session at hrest
  cases session with
  | none =>
    obtain ⟨-, rfl⟩ := pure_ok.mp hrest
    exact Std.Refl.refl _
  | some current =>
    rcases ite_ok.mp hrest with ⟨-, hrebind⟩ | ⟨-, hsame⟩
    · exact rebind_holdsKept hrebind
    · obtain ⟨-, rfl⟩ := pure_ok.mp hsame
      exact Std.Refl.refl _

/-- Why an effect may be routed: it tears down, or it was taken from the queue when what has
to wait for a stop was the same as now. -/
def Sourced (w : World) (held : Held) : Prop :=
  held.phase.isTeardown ∨ ∃ entry ∈ w.trace, ∃ effect, entry.seen = .routed effect ∧
    effectCall effect = some held ∧
    awaitsStop entry.service held.binding = awaitsStop w.service held.binding

theorem Sourced.kept {u : World} {held : Held} (h : Sourced w held) (hkept : HoldsKept w u) :
    Sourced u held := by
  rcases h with h | ⟨entry, hentry, effect, hseen, hcall, hawaits⟩
  · exact .inl h
  · exact .inr ⟨entry, hkept.trace.subset hentry, effect, hseen, hcall,
      hawaits.trans (hkept.awaits _).symm⟩

theorem Sourced.hold {held : Held} {record : Binding} {machine : NodeId} (h : Sourced w held)
    (hrecord : w.service.cluster.bindings[held.binding]? = some record)
    (hmachine : w.service.cluster.graph.machineOf record.node = some machine)
    (hhold : mustHold w.service record.lease machine) :
    held.phase.isTeardown ∨ ∃ entry ∈ w.trace, held.RoutedBy entry := by
  rcases h with h | ⟨entry, hentry, effect, hseen, hcall, hawaits⟩
  · exact .inl h
  · refine .inr ⟨entry, hentry, effect, hseen, hcall, ?_⟩
    rw [hawaits, awaitsStop, hrecord, Option.any_some, hmachine, Option.any_some]
    exact hhold

theorem routeBinding_follows {phase : EffectPhase} {id : BindingId} {epoch : UInt64}
    (h : Sourced w ⟨id, phase⟩) : Follows (Move own) w (routeBinding phase id epoch) := by
  unfold routeBinding
  refine (rebindStale_moving id w).bind fun _ u hu => ?_
  have hsourced := h.kept (rebindStale_holdsKept hu)
  refine follows_self (follows_check_bind fun record hrecord => follows_check_bind fun machine hmachine => ?_)
  simp only [okOr_ok] at hrecord hmachine
  refine .ite (fun hhold => ?_) fun hfree => ?_
  · refine (maybeStopExecutions_moving record.lease u).bind fun _ v hv => ?_
    have hcalled := (maybeStopExecutions_called record.lease u).ok_related hv
    have hkept := hsourced.kept hcalled.holdsKept
    obtain ⟨inflight, extra, rfl⟩ := hcalled
    exact follows_update (.hold ⟨id, phase⟩ (hkept.hold hrecord hmachine hhold))
  · exact dispatch_follows (.binding hrecord hmachine (Bool.eq_false_iff.mpr hfree) rfl)

theorem mem_leasesOf {s : NodeService} {bindings : List BindingId} {select : LeaseState → Bool}
    {lease : LeaseId} (h : lease ∈ leasesOf s bindings select) : ∃ (id : BindingId) (record : Binding),
      s.cluster.bindings[id]? = some record ∧ record.lease = lease ∧
        ∃ found, s.cluster.leases[lease]? = some found ∧ select found.state := by
  simp only [leasesOf, mem_sortAsc, List.mem_dedup, List.mem_filterMap, Option.bind_eq_bind,
    Option.bind_eq_some_iff] at h
  obtain ⟨id, -, record, hrecord, found, hfound, hselect⟩ := h
  split at hselect
  · rename_i hstate
    cases hselect
    exact ⟨id, record, hrecord, rfl, found, hfound, hstate⟩
  · cases hselect

theorem awaitMembers_follows {machine : NodeId} {leases : List LeaseId}
    (h : ∀ lease ∈ leases, ∃ (id : BindingId) (record : Binding),
      w.service.cluster.bindings[id]? = some record ∧ record.lease = lease ∧
        ∃ found, w.service.cluster.leases[lease]? = some found ∧ found.state ≠ .preparing) :
    Follows (Move own) w (awaitMembers machine leases) := follows_update (.await machine leases h)

/-- The cluster is left alone. -/
def ClusterKept (w u : World) : Prop := u.service.cluster = w.service.cluster

instance : Std.Refl ClusterKept := ⟨fun _ => rfl⟩

instance : IsTrans World ClusterKept := ⟨fun _ _ _ h h' => Eq.trans h' h⟩

theorem Called.clusterKept {u : World} (h : Called w u) : ClusterKept w u := by
  obtain ⟨inflight, extra, rfl⟩ := h
  rfl

theorem report_clusterKept (event : RecoveryEvent) : Moving ClusterKept (report event) :=
  fun _ => .single rfl

theorem routeRecovery_moving (machine : NodeId) (bindings : List BindingId) :
    Moving (Move own) (routeRecovery machine bindings) := by
  intro w
  unfold routeRecovery
  refine follows_self ?_
  refine (awaitMembers_follows fun lease hlease => ?_).bind fun _ t ht => ?_
  · obtain ⟨id, record, hrecord, hof, found, hfound, hselect⟩ := mem_leasesOf hlease
    exact ⟨id, record, hrecord, hof, found, hfound, by simp_all⟩
  have hawaited : ClusterKept w t := by
    cases ht
    rfl
  refine (Moving.forM (fun lease _ => report_moving (by simp)) _).bind fun _ u hu => ?_
  have hreported : ClusterKept w u := IsTrans.trans _ _ _ hawaited
    ((Moving.forM (fun _ _ => report_clusterKept _) t).ok_related hu)
  -- the cluster the leases were selected in is still the current one
  refine (Follows.forM hreported ?_ ?_).bind fun _ u _ => ?_
  · intro lease hlease u hu
    refine (awaitMembers_follows fun other hother => ?_).bind fun _ v _ =>
      requestStatusOnMachine_moving lease machine v
    obtain rfl := List.mem_singleton.mp hother
    obtain ⟨id, record, hrecord, hof, found, hfound, hselect⟩ := mem_leasesOf hlease
    unfold ClusterKept at hu
    rw [hu]
    exact ⟨id, record, hrecord, hof, found, hfound, by simp_all⟩
  · intro lease hlease u hu _ v hv
    obtain ⟨_, x, hx, hcall⟩ := bind_ok.mp hv
    cases hx
    exact IsTrans.trans _ _ _ hu
      ((requestStatusOnMachine_called lease machine _).ok_related hcall).clusterKept
  · exact (Moving.forM (fun lease _ => requestStatusOnMachine_moving lease machine) u).bind
      fun _ _ _ => .pure _

theorem route_follows {effect : Effect} (h : ∀ held, effectCall effect = some held → Sourced w held) :
    Follows (Move own) w (route effect) := by
  cases effect with
  | reconcile machine session epoch bindings =>
    unfold route
    exact follows_self (.ite (fun _ => routeRecovery_moving machine bindings w) fun _ => .pure _)
  | prepare | activate | release | fence =>
    unfold route
    exact (routeBinding_follows (h _ rfl)).bind fun _ _ _ => .pure _

/-- What routing asks the kernel for. -/
theorem route_commands {effect : Effect} {commands : List Command} {u : World}
    (h : route effect w = .ok commands u) : ∀ command ∈ commands,
      (∃ lease reason, command = .failLease lease reason) ∨
      (∃ binding session, command = .rebindSession binding session) ∨
      ∃ binding, command = .activateBinding binding := by
  cases effect with
  | reconcile machine session epoch bindings =>
    simp only [route, self_bind_run] at h
    rcases ite_ok.mp h with ⟨-, hrecovery⟩ | ⟨-, hsame⟩
    · unfold routeRecovery at hrecovery
      simp only [self_bind_run, bind_ok, pure_ok] at hrecovery
      obtain ⟨_, _, _, _, _, _, _, _, _, _, _, _, rfl, _⟩ := hrecovery
      intro command hcommand
      obtain ⟨lease, -, rfl⟩ := List.mem_map.mp hcommand
      exact .inl ⟨lease, _, rfl⟩
    · obtain ⟨rfl, -⟩ := pure_ok.mp hsame
      intro command hcommand
      simp only [reconcileCommands, List.mem_flatMap, List.mem_cons, List.not_mem_nil, or_false] at hcommand
      obtain ⟨binding, _, rfl | rfl⟩ := hcommand
      · exact .inr (.inl ⟨binding, session, rfl⟩)
      · exact .inr (.inr ⟨binding, rfl⟩)
  | prepare | activate | release | fence =>
    simp only [route] at h
    obtain ⟨_, _, _, hsame⟩ := bind_ok.mp h
    obtain ⟨rfl, -⟩ := pure_ok.mp hsame
    simp

theorem route_plain {effect : Effect} {commands : List Command} {u : World}
    (h : route effect w = .ok commands u) : ∀ command ∈ commands, isGuarded command = false := by
  intro command hcommand
  rcases route_commands h command hcommand with ⟨_, _, rfl⟩ | ⟨_, _, rfl⟩ | ⟨_, rfl⟩ <;> rfl

theorem pumpOne_moving : Moving (Move own) pumpOne := by
  intro w
  unfold pumpOne
  refine follows_self ?_
  split
  · exact .pure ()
  · rename_i effect rest hpending
    have htaken : (⟨w.service, .routed effect⟩ : Entry) ∈ (w.observe (.routed effect)).trace := by
      simp [World.observe]
    refine follows_observe_update (.pop hpending) ?_
    refine Follows.bind (route_follows fun held hheld => ?_) fun commands u hu =>
      Moving.forM (fun command hcommand => commit_follows (route_plain hu command hcommand)) u
    exact .inr ⟨_, htaken, effect, rfl, hheld, rfl⟩

theorem pump_moving : Moving (Move own) pump := by
  have hqueued : Moving (Move own) pumpQueued := fun w =>
    follows_self (Moving.forM (fun _ _ => pumpOne_moving) w)
  exact hqueued.bind fun _ => hqueued

/-! Held effects. -/

theorem driveHeld_follows {held : Held} (h : ∃ entry ∈ w.trace, held ∈ entry.service.heldEffects) :
    Follows (Move own) w (driveHeld held) := by
  unfold driveHeld
  refine follows_self ?_
  split
  · exact .pure ()
  · split
    · exact .pure ()
    · refine .ite (fun _ => ?_) fun _ => follows_update (.rehold held h)
      split
      · exact .throw _
      · exact .throw _
      · rename_i hprepare hactivate
        refine routeBinding_follows (.inl ?_)
        cases hphase : held.phase <;> simp_all [EffectPhase.isTeardown]

/-! The answer to a start. -/

theorem after_commitLenient (command : Command) :
    after (commitLenient command) w = after (commit command) w := by
  unfold commitLenient tryCommitLenient
  rw [after_bind_pure, after_map, after_tolerate]

/-- An answer to a start that still counts is noted or fails the lease. -/
theorem after_answerStart (lease : LeaseId) (machine : NodeId) (session : UInt64) (reply : AgentReply) :
    let answered := w.answer (.executionStart lease machine session) reply
    let left := after (absorbReply (.executionStart lease machine session) reply) w
    (left = answered ∧ ¬(w.service.cluster.sessions[machine]? = some session ∧
        w.service.leaseIsActive lease)) ∨
      left = answered.update (fun s => { s with
        executionStarted := insert ⟨lease, machine, session⟩ s.executionStarted }) ∨
      ∃ reason, w.service.leaseIsActive lease ∧
        left = after (commit (.failLease lease reason)) answered := by
  intro answered left
  have hleft : left = after (absorbStart lease machine session reply) answered := by
    have hrun : absorbReply (.executionStart lease machine session) reply w =
        (absorbStart lease machine session reply >>= fun _ => pure []) answered := rfl
    rw [← after_bind_pure _ ([] : List LeaseId)]
    unfold left after
    rw [hrun]
  have hcounts : (decide (answered.service.cluster.sessions[machine]? = some session) &&
      answered.service.leaseIsActive lease) = true ↔
        w.service.cluster.sessions[machine]? = some session ∧ w.service.leaseIsActive lease := by
    rw [Bool.and_eq_true, decide_eq_true_eq]
    rfl
  rw [hleft]
  by_cases hcurrent : w.service.cluster.sessions[machine]? = some session ∧
      w.service.leaseIsActive lease
  · right
    cases hfailure : startFailure lease machine reply with
    | none =>
      left
      refine @after_of_ok _ _ _ _ _ _ () ?_
      unfold absorbStart
      rw [self_bind_run, if_pos (hcounts.mpr hcurrent), hfailure]
      rfl
    | some reason =>
      right
      refine ⟨reason, hcurrent.2, ?_⟩
      rw [← after_commitLenient]
      unfold after absorbStart
      rw [self_bind_run, if_pos (hcounts.mpr hcurrent), hfailure]
  · left
    refine ⟨@after_of_ok _ _ _ _ _ _ () ?_, hcurrent⟩
    unfold absorbStart
    rw [self_bind_run, if_neg (hcounts.not.mpr hcurrent)]
    rfl

/-- Traces only grow. -/
def TraceGrows (w u : World) : Prop := w.trace <+: u.trace

instance : Std.Refl TraceGrows := ⟨fun _ => List.prefix_rfl⟩

instance : IsTrans World TraceGrows := ⟨fun _ _ _ h h' => List.IsPrefix.trans h h'⟩

theorem commit_traceGrows (command : Command) : TraceGrows w (after (commit command) w) := by
  cases happly : Cluster.apply command w.service.cluster with
  | error e left =>
    rw [after_of_error (commit_run_error happly)]
    exact List.prefix_rfl
  | ok effects cluster =>
    rw [after_of_ok (commit_run_ok happly)]
    exact trace_commit _ _ _

theorem Move.traceGrows {u : World} (h : Move own w u) : TraceGrows w u := by
  unfold TraceGrows
  cases h with
  | commit => exact trace_commit _ _ _
  | hello => exact trace_commit _ _ _
  | call =>
    unfold World.call
    split
    · simp [World.observe, World.update]
    · exact List.prefix_rfl
  | answerStart lease machine session reply =>
    have hanswer : w.trace <+: (w.answer (.executionStart lease machine session) reply).trace := by
      simp [World.answer, World.observe, World.update]
    rcases after_answerStart (w := w) lease machine session reply with ⟨heq, -⟩ | heq | ⟨_, -, heq⟩
    · rwa [heq]
    · rwa [heq]
    · rw [heq]
      exact hanswer.trans (commit_traceGrows _)
  | persist | answer | pop | drain | report | recover | join | recovered =>
    simp [World.observe, World.update, World.updateRecovery, World.answer, World.join]
  | refuse | clock | hold | rehold | activate | adopt | start | stop | await | status | endpoints
  | stray | closed | session | inert => exact List.prefix_rfl

theorem driveHeldEffects_moving : Moving (Move own) driveHeldEffects := by
  intro w
  unfold driveHeldEffects
  refine follows_self ?_
  refine follows_observe_update .drain ?_
  have hpass : ∀ held ∈ w.service.heldEffects.keys, ∀ t, TraceGrows (w.observe .driven) t →
      Follows (Move own) t (driveHeld held) := by
    intro held hheld t ht
    exact driveHeld_follows ⟨⟨w.service, .driven⟩, ht.subset (by simp [World.observe]),
      Std.ExtTreeMap.mem_keys.mp hheld⟩
  refine @Follows.forM _ _ _ _ _ (TraceGrows (w.observe .driven)) _ _ List.prefix_rfl hpass ?_
  intro held hheld t ht _ u hu
  exact IsTrans.trans _ _ _ ht
    (((hpass held hheld t ht).weaken fun _ _ => Move.traceGrows).ok_related hu)

end Archon.Node.Service
