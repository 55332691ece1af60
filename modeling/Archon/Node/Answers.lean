import Archon.Node.Paths

/-! Answers are taken up in moves. A returning member is joined with the evidence
of the moment: what the members before it have changed does not touch its own
bindings. -/
namespace Archon.Node.Service
open Archon.Kernel Fallible

variable {own : Bool} {w : World} {α β : Type}

/-- The cluster is one the kernel can reach. -/
def Grounded (w : World) : Prop := w.service.cluster.Reachable

theorem commit_grounded {command : Command} (h : Grounded w) :
    Grounded (after (commit command) w) := by
  unfold Grounded
  cases happly : Cluster.apply command w.service.cluster with
  | error e left =>
    rw [after_of_error (commit_run_error happly)]
    obtain rfl := Cluster.Reachable.refused h happly
    exact h
  | ok effects cluster =>
    rw [after_of_ok (commit_run_ok happly), service_commit]
    exact Cluster.Reachable.apply_ok h happly

theorem Move.grounded (w u : World) (h : Move own w u) (hw : Grounded w) : Grounded u := by
  cases h with
  | commit _ happly =>
    unfold Grounded
    rw [service_commit]
    exact Cluster.Reachable.apply_ok hw happly
  | hello _ happly =>
    unfold Grounded
    rw [service_commit]
    exact Cluster.Reachable.apply_ok hw happly
  | refuse happly =>
    obtain rfl := Cluster.Reachable.refused hw happly
    exact hw
  | clock now => exact Cluster.Reachable.take hw (.setNow now)
  | call =>
    unfold World.call
    split
    · exact hw
    · exact hw
  | answerStart lease machine session reply =>
    rcases after_answerStart (w := w) lease machine session reply with ⟨heq, -⟩ | heq | ⟨_, -, heq⟩
    · rw [heq]
      exact hw
    · rw [heq]
      exact hw
    · rw [heq]
      exact commit_grounded hw
  | persist | answer | pop | drain | report | recover | join | recovered | hold | rehold | activate
  | adopt | start | stop | await | status | endpoints | stray | closed | session | inert => exact hw

/-! What the resolution of one member leaves of the others. -/

/-- No lease becomes active, and bindings differ at most in their sessions. -/
structure Settling (w u : World) : Prop where
  recovering : u.service.recoveringMachines = w.service.recoveringMachines
  graph : u.service.cluster.graph = w.service.cluster.graph
  sessions : u.service.cluster.sessions = w.service.cluster.sessions
  active : ∀ lease, u.service.leaseIsActive lease → w.service.leaseIsActive lease
  bindings : ∀ id : BindingId, u.service.cluster.bindings[id]?.map unsessioned =
    w.service.cluster.bindings[id]?.map unsessioned
  grounded : Grounded w → Grounded u

/-- A change outside the cluster and the recoveries. -/
theorem Settling.of_eq {u : World} (hcluster : u.service.cluster = w.service.cluster)
    (hrecovering : u.service.recoveringMachines = w.service.recoveringMachines) : Settling w u := by
  refine ⟨hrecovering, by rw [hcluster], by rw [hcluster], fun lease h => ?_, fun id => by rw [hcluster],
    fun h => ?_⟩
  · unfold NodeService.leaseIsActive at h ⊢
    rwa [hcluster] at h
  · unfold Grounded at h ⊢
    rwa [hcluster]

instance : Std.Refl Settling := ⟨fun _ => .of_eq rfl rfl⟩

instance : IsTrans World Settling := by
  constructor
  intro w t u h h'
  exact ⟨h'.recovering.trans h.recovering, h'.graph.trans h.graph, h'.sessions.trans h.sessions,
    fun lease hu => h.active lease (h'.active lease hu),
    fun id => (h'.bindings id).trans (h.bindings id), fun hw => h'.grounded (h.grounded hw)⟩

theorem Called.settling {u : World} (h : Called w u) : Settling w u := by
  obtain ⟨inflight, extra, rfl⟩ := h
  exact .of_eq rfl rfl

theorem leaseIsActive_iff {s : NodeService} {lease : LeaseId} : s.leaseIsActive lease ↔
    ∃ record, s.cluster.leases[lease]? = some record ∧ record.state = .active := by
  unfold NodeService.leaseIsActive
  cases s.cluster.leases[lease]? <;> simp

/-- The commands a recovered member is settled with. -/
def settlesKernel : Command → Bool
  | .rebindSession _ _ | .completeLease _ _ | .revokeLease _ => true
  | _ => false

theorem commit_settling {command : Command} (hcommand : settlesKernel command) (hw : Grounded w) :
    Settling w (after (commit command) w) := by
  cases happly : Cluster.apply command w.service.cluster with
  | error e left =>
    rw [after_of_error (commit_run_error happly)]
    obtain rfl := Cluster.Reachable.refused hw happly
    exact Std.Refl.refl w
  | ok effects cluster =>
    have hgrounded := @commit_grounded w command hw
    rw [after_of_ok (commit_run_ok happly)] at hgrounded ⊢
    have hactive : ∀ lease, (w.commit command effects cluster).service.leaseIsActive lease →
        w.service.leaseIsActive lease := by
      intro lease hlease
      rw [service_commit] at hlease
      obtain ⟨record, hrecord, hstate⟩ := leaseIsActive_iff.mp hlease
      rcases Cluster.active_of_apply hw.wellFormed happly hrecord hstate with hbefore | rfl
      · exact leaseIsActive_iff.mpr hbefore
      · cases hcommand
    have hrecovering : (w.commit command effects cluster).service.recoveringMachines =
        w.service.recoveringMachines := by rw [service_commit]
    cases command with
    | rebindSession id session =>
      have hcluster := Cluster.rebindSession_eq happly
      refine ⟨hrecovering, ?_, ?_, hactive, fun other => ?_, fun _ => hgrounded⟩
      · rw [service_commit, hcluster]
      · rw [service_commit, hcluster]
      · rw [service_commit, hcluster, OrdMap.get_modify]
        split
        · cases w.service.cluster.bindings[other]? <;> rfl
        · rfl
    | completeLease id code =>
      obtain ⟨hbindings, hgraph, hsessions⟩ := Cluster.bindings_of_end (.inl ⟨code, rfl⟩) happly
      refine ⟨hrecovering, ?_, ?_, hactive, fun _ => ?_, fun _ => hgrounded⟩
      · rw [service_commit, hgraph]
      · rw [service_commit, hsessions]
      · rw [service_commit, hbindings]
    | revokeLease id =>
      obtain ⟨hbindings, hgraph, hsessions⟩ := Cluster.bindings_of_end (.inr rfl) happly
      refine ⟨hrecovering, ?_, ?_, hactive, fun _ => ?_, fun _ => hgrounded⟩
      · rw [service_commit, hgraph]
      · rw [service_commit, hsessions]
      · rw [service_commit, hbindings]
    | _ => cases hcommand

theorem settling_grounded (w u : World) (h : Settling w u) (hw : Grounded w) : Grounded u :=
  h.grounded hw

theorem commit_settles {command : Command} (h : settlesKernel command) :
    Guided Grounded Settling (commit command) := fun _ hw => .single (commit_settling h hw)

theorem commitLenient_settles {command : Command} (h : settlesKernel command) :
    Guided Grounded Settling (commitLenient command) := by
  intro w hw
  unfold Follows
  rw [after_commitLenient]
  exact commit_settles h w hw

theorem rebindLeaseMachine_settles (lease : LeaseId) (machine : NodeId) :
    Guided Grounded Settling (rebindLeaseMachine lease machine) := by
  intro w hw
  unfold rebindLeaseMachine
  refine follows_self ?_
  split
  · exact .pure ()
  · exact Guided.forM settling_grounded (fun _ _ => commit_settles rfl) w hw

theorem rebindStale_settles (id : BindingId) : Guided Grounded Settling (rebindStale id) := by
  intro w hw
  unfold rebindStale
  refine follows_self (follows_check_bind fun record _ => ?_)
  split
  · exact .ite (fun _ => commit_settles rfl w hw) fun _ => .pure ()
  · exact .pure ()

theorem report_settles (event : RecoveryEvent) : Moving Settling (report event) :=
  fun _ => .single (.of_eq rfl rfl)

theorem routeBinding_settles (phase : EffectPhase) (id : BindingId) (epoch : UInt64) :
    Guided Grounded Settling (routeBinding phase id epoch) := by
  unfold routeBinding
  refine Guided.bind settling_grounded (rebindStale_settles id) fun _ => ?_
  intro w hw
  refine follows_self (follows_check_bind fun record _ => follows_check_bind fun machine _ => ?_)
  refine .ite (fun _ => ?_) fun _ => ?_
  · exact ((maybeStopExecutions_called record.lease w).weaken fun _ _ => Called.settling).bind
      fun _ _ _ => follows_update (.of_eq rfl rfl)
  · exact (dispatch_called _ _ _ w).weaken fun _ _ => Called.settling

theorem driveHeldEffects_settles : Guided Grounded Settling driveHeldEffects := by
  intro w hw
  unfold driveHeldEffects
  refine follows_self (follows_observe_update (.of_eq rfl rfl) ?_)
  refine Guided.forM settling_grounded (fun held _ t ht => ?_) _ hw
  unfold driveHeld
  refine follows_self ?_
  split
  · exact .pure ()
  · split
    · exact .pure ()
    · refine .ite (fun _ => ?_) fun _ => follows_update (.of_eq rfl rfl)
      split
      · exact .throw _
      · exact .throw _
      · exact routeBinding_settles _ _ _ t ht

/-! Adoption. -/

/-- Only what settles a member was seen, and only its completion moved a lease. -/
def Quiet (lease : LeaseId) (w u : World) : Prop :=
  ∃ extra, u.trace = w.trace ++ extra ∧ (∀ entry ∈ extra, settlesMember lease entry.seen) ∧
    (Grounded w → Grounded u ∧ (u.service.cluster.leases = w.service.cluster.leases ∨
      ∃ entry ∈ extra, ∃ code, entry.seen = .committed (.completeLease lease code)))

instance (lease : LeaseId) : Std.Refl (Quiet lease) :=
  ⟨fun _ => ⟨[], by simp, by simp, fun hw => ⟨hw, .inl rfl⟩⟩⟩

instance (lease : LeaseId) : IsTrans World (Quiet lease) := by
  constructor
  rintro w t u ⟨extra, htrace, hextra, hleases⟩ ⟨extra', htrace', hextra', hleases'⟩
  refine ⟨extra ++ extra', by rw [htrace', htrace, List.append_assoc], fun entry hentry => ?_, fun hw => ?_⟩
  · rcases List.mem_append.mp hentry with h | h
    · exact hextra entry h
    · exact hextra' entry h
  · obtain ⟨ht, hfirst⟩ := hleases hw
    obtain ⟨hu, hsecond⟩ := hleases' ht
    refine ⟨hu, ?_⟩
    rcases hfirst with hsame | ⟨entry, hentry, hcompleted⟩
    · rcases hsecond with hsame' | ⟨entry, hentry, hcompleted⟩
      · exact .inl (hsame'.trans hsame)
      · exact .inr ⟨entry, List.mem_append_right _ hentry, hcompleted⟩
    · exact .inr ⟨entry, List.mem_append_left _ hentry, hcompleted⟩

/-- Of what settles a member, only the completion of its lease moves a lease. -/
theorem leases_of_settles {lease : LeaseId} {command : Command} {c c' : Cluster} {effects : List Effect}
    (h : settlesMember lease (.committed command)) (happly : Cluster.apply command c = .ok effects c') :
    c'.leases = c.leases ∨ ∃ code, command = .completeLease lease code := by
  cases command with
  | rebindSession id session =>
    left
    rw [Cluster.rebindSession_eq happly]
  | completeLease id code =>
    right
    refine ⟨code, ?_⟩
    rw [show id = lease from of_decide_eq_true h]
  | _ => cases h

theorem commit_quiet {lease : LeaseId} {command : Command}
    (h : settlesMember lease (.committed command)) : Moving (Quiet lease) (commit command) := by
  intro w
  refine .single ?_
  have hgrounded := @commit_grounded w command
  cases happly : Cluster.apply command w.service.cluster with
  | error e left =>
    rw [after_of_error (commit_run_error happly)] at hgrounded ⊢
    refine ⟨[], by simp [World.update], by simp, fun hw => ⟨hgrounded hw, .inl ?_⟩⟩
    exact congrArg Cluster.leases (Cluster.Reachable.refused hw happly)
  | ok effects cluster =>
    rw [after_of_ok (commit_run_ok happly)] at hgrounded ⊢
    refine ⟨_, trace_commit_eq command effects cluster, fun entry hentry => ?_,
      fun hw => ⟨hgrounded hw, ?_⟩⟩
    · rcases List.mem_cons.mp hentry with rfl | hentry
      · exact h
      · split at hentry
        · rw [List.mem_singleton.mp hentry]
          rfl
        · cases hentry
    · rw [service_commit]
      rcases leases_of_settles h happly with hsame | ⟨code, rfl⟩
      · exact .inl hsame
      · exact .inr ⟨_, List.mem_cons_self, code, rfl⟩

theorem rebindLeaseMachine_quiet (lease : LeaseId) (machine : NodeId) :
    Moving (Quiet lease) (rebindLeaseMachine lease machine) := by
  intro w
  unfold rebindLeaseMachine
  refine follows_self ?_
  split
  · exact .pure ()
  · exact Moving.forM (fun _ _ => commit_quiet rfl) w

theorem resolveObservedCompletion_quiet (lease : LeaseId) :
    Moving (Quiet lease) (resolveObservedCompletion lease) := by
  intro w
  unfold resolveObservedCompletion
  refine follows_self (.ite (fun _ => .pure _) fun _ => .ite (fun _ => .pure _) fun _ => ?_)
  split
  · exact .pure _
  · refine Follows.bind ?_ fun _ _ _ => .pure _
    unfold Follows
    rw [after_commitLenient]
    exact commit_quiet (by simp [settlesMember]) w

theorem resolveObservedCompletion_moving (lease : LeaseId) :
    Moving (Move own) (resolveObservedCompletion lease) := by
  intro w
  unfold resolveObservedCompletion
  refine follows_self (.ite (fun _ => .pure _) fun _ => .ite (fun _ => .pure _) fun _ => ?_)
  split
  · exact .pure _
  · exact (commitLenient_moving rfl w).bind fun _ _ _ => .pure _

theorem rebindLeaseMachine_moving (lease : LeaseId) (machine : NodeId) :
    Moving (Move own) (rebindLeaseMachine lease machine) := by
  intro w
  unfold rebindLeaseMachine
  refine follows_self ?_
  split
  · exact .pure ()
  · exact Moving.forM (fun _ _ => commit_follows rfl) w

/-- Rebinding some bindings moves exactly those to the session. -/
theorem rebindAll_bindings {session : UInt64} {ids : List BindingId} {u : World}
    (h : (ids.forM fun id => commit (.rebindSession id session)) w = .ok () u) (id : BindingId) :
    u.service.cluster.bindings[id]? = if id ∈ ids then
      w.service.cluster.bindings[id]?.map fun binding => { binding with agentSession := session }
      else w.service.cluster.bindings[id]? := by
  induction ids generalizing w with
  | nil =>
    cases h
    simp
  | cons first rest ih =>
    obtain ⟨_, t, hcommit, hrest⟩ := bind_ok.mp h
    have ht : commit (.rebindSession first session) w = .ok () t := hcommit
    cases happly : Cluster.apply (.rebindSession first session) w.service.cluster with
    | error e left =>
      rw [commit_run_error happly] at ht
      cases ht
    | ok effects cluster =>
      rw [commit_run_ok happly] at ht
      cases ht
      rw [ih hrest, service_commit, Cluster.rebindSession_eq happly, OrdMap.get_modify]
      by_cases hfirst : first = id
      · subst hfirst
        cases w.service.cluster.bindings[first]? <;> simp
      · have hne : id ≠ first := fun heq => hfirst heq.symm
        simp [hfirst, hne]

theorem mem_bindingsFor (h : Grounded w) {lease : LeaseId} {id : BindingId} :
    id ∈ w.service.bindingsFor lease ↔
      ∃ record, w.service.cluster.bindings[id]? = some record ∧ record.lease = lease := by
  have hkey : ∀ {key : BindingId} {record : Binding},
      w.service.cluster.bindings[key]? = some record → record.id = key := h.wellFormed.bindings.key
  simp only [NodeService.bindingsFor, List.mem_map, List.mem_filter, OrdMap.mem_vals,
    decide_eq_true_eq]
  constructor
  · rintro ⟨record, ⟨⟨key, hrecord⟩, hlease⟩, rfl⟩
    rw [hkey hrecord]
    exact ⟨record, hrecord, hlease⟩
  · rintro ⟨record, hrecord, hlease⟩
    exact ⟨record, ⟨⟨id, hrecord⟩, hlease⟩, hkey hrecord⟩

/-- Once its machine is rebound, a lease has no binding of an earlier session there. -/
theorem rebindLeaseMachine_current {lease : LeaseId} {machine : NodeId} {session : UInt64}
    {u : World} (hw : Grounded w) (hsession : w.service.cluster.sessions[machine]? = some session)
    (h : rebindLeaseMachine lease machine w = .ok () u) {id : BindingId} {record : Binding}
    (hrecord : u.service.cluster.bindings[id]? = some record) (hlease : record.lease = lease)
    (hmachine : w.service.cluster.graph.machineOf record.node = some machine) :
    record.agentSession = session := by
  unfold rebindLeaseMachine at h
  rw [self_bind_run, hsession] at h
  rw [rebindAll_bindings h] at hrecord
  split at hrecord
  · cases hbefore : w.service.cluster.bindings[id]? with
    | none => simp [hbefore] at hrecord
    | some before =>
      rw [hbefore] at hrecord
      cases hrecord
      rfl
  · rename_i hfresh
    by_contra hstale
    refine hfresh ?_
    simp only [staleBindings, List.mem_filter, mem_bindingsFor hw]
    refine ⟨⟨record, hrecord, hlease⟩, ?_⟩
    simp [hrecord, hstale, hmachine]

section Since
variable {join : Entry} {lease : LeaseId} {machine : NodeId} {status : MemberStatus}

theorem Since.later {u : World} (h : Since join lease machine status w) (hw : Grounded w)
    (hquiet : Quiet lease w u) (hsettling : Settling w u) : Since join lease machine status u := by
  obtain ⟨before, rest, htrace, hrest, hsettled⟩ := h.shape
  obtain ⟨extra, hmore, hextra, hleases⟩ := hquiet
  refine ⟨h.seen, ⟨before, rest ++ extra, by rw [hmore, htrace]; simp, fun entry hentry => ?_, ?_⟩,
    hsettling.sessions.trans h.sessions, hsettling.graph.trans h.graph,
    fun id => (hsettling.bindings id).trans (h.bindings id)⟩
  · rcases List.mem_append.mp hentry with hmem | hmem
    · exact hrest entry hmem
    · exact hextra entry hmem
  · rcases hsettled with hsame | ⟨entry, hentry, hcompleted⟩
    · rcases (hleases hw).2 with hlater | ⟨entry, hentry, hcompleted⟩
      · exact .inl (hlater.trans hsame)
      · exact .inr ⟨entry, List.mem_append_right _ hentry, hcompleted⟩
    · exact .inr ⟨entry, List.mem_append_left _ hentry, hcompleted⟩

theorem Since.mem (h : Since join lease machine status w) : join ∈ w.trace := by
  obtain ⟨before, rest, htrace, -, -⟩ := h.shape
  rw [htrace]
  simp

theorem Since.exited (h : Since join lease machine status w) {session : UInt64}
    (hsession : w.service.cluster.sessions[machine]? = some session) (hrunning : status.running = false)
    (hexit : status.exitCode.isSome) : StopShown w.trace ⟨lease, machine, session⟩ :=
  .exited h.mem h.seen hrunning hexit (by rw [← h.sessions]; exact hsession)

theorem resolveTerminalMember_follows (h : Since join lease machine status w) :
    Follows (Move own) w (resolveTerminalMember lease machine status) := by
  unfold resolveTerminalMember
  refine follows_self ?_
  have hrest : Moving (Move own) (do
      let _ ← tolerate (maybeStopExecutions lease)
      let _ ← tolerate driveHeldEffects
      report (.terminalMemberResolved lease machine)) :=
    (tolerate_moving (maybeStopExecutions_moving lease)).bind fun _ =>
      (tolerate_moving driveHeldEffects_moving).bind fun _ => report_moving (by simp)
  split
  · rename_i session hsession
    split
    · rename_i hgone
      simp only [Bool.and_eq_true, Bool.not_eq_true'] at hgone
      exact follows_update_bind (.stop (h.exited hsession hgone.1 hgone.2)) (hrest _)
    · exact hrest w
  · exact hrest w

theorem Since.same {u : World} (h : Since join lease machine status w) (htrace : u.trace = w.trace)
    (hcluster : u.service.cluster = w.service.cluster) : Since join lease machine status u :=
  ⟨h.seen, by rw [htrace, hcluster]; exact h.shape, by rw [hcluster]; exact h.sessions,
    by rw [hcluster]; exact h.graph, fun id => by rw [hcluster]; exact h.bindings id⟩

theorem resolveObservedCompletion_settles (lease : LeaseId) :
    Guided Grounded Settling (resolveObservedCompletion lease) := by
  intro w hw
  unfold resolveObservedCompletion
  refine follows_self (.ite (fun _ => .pure _) fun _ => .ite (fun _ => .pure _) fun _ => ?_)
  split
  · exact .pure _
  · exact (commitLenient_settles rfl w hw).bind fun _ _ _ => .pure _

theorem reportAdopted_follows (h : Since join lease machine status w) (hw : Grounded w)
    (hterminal : join.service.leaseIsTerminal lease = false)
    (hstatus : status.running || status.exitCode.isSome) : Follows (Move own) w (do
      let finished ← resolveObservedCompletion lease
      report (.memberRecovered lease machine status.running status.exitCode)
      return finished) := by
  refine (resolveObservedCompletion_moving lease w).bind fun finished u hu => ?_
  have hlater := h.later hw ((resolveObservedCompletion_quiet lease w).ok_related hu)
    ((resolveObservedCompletion_settles lease w hw).ok_related hu)
  refine (report_follows fun other host running exitCode hevent => ?_).bind fun _ _ _ => .pure _
  cases hevent
  exact ⟨join, hlater, hterminal, hstatus⟩

/-- An adopted member moves to the current session with the proofs of its join. -/
theorem adoptMember_follows (h : Since join lease machine status w) (hw : Grounded w)
    (hterminal : join.service.leaseIsTerminal lease = false)
    (hstatus : status.running || status.exitCode.isSome)
    (hproven : ∀ generation ∈ adoptedGenerations w.service lease machine,
      join.service.leaseIsActive lease → ProvenBy join generation) :
    Follows (Move own) w (adoptMember lease machine status) := by
  unfold adoptMember
  refine follows_update_bind (.adopt (adoptedGenerations w.service lease machine)
    fun generation hgeneration => ⟨join, h.mem, lease, machine, status, h.seen, hterminal,
      hproven generation hgeneration⟩) ?_
  refine follows_self ?_
  split
  · rename_i session hsession
    refine follows_update_bind (.start _) ?_
    split
    · rename_i hgone
      have hrunning : status.running = false := by simpa using hgone
      refine follows_update_bind (.stop ((h.same rfl rfl).exited hsession hrunning ?_)) ?_
      · simpa [hrunning] using hstatus
      · exact reportAdopted_follows (h.same rfl rfl) hw hterminal hstatus
    · exact reportAdopted_follows (h.same rfl rfl) hw hterminal hstatus
  · exact reportAdopted_follows (h.same rfl rfl) hw hterminal hstatus

/-- What a join proves of the bindings a member is adopted with. -/
theorem proven_of_join {recovery : MachineRecovery} {u : World} (hw : Grounded w)
    (hsession : ∀ session, join.service.cluster.sessions[machine]? = some session →
      ∀ (id : BindingId) (record : Binding), u.service.cluster.bindings[id]? = some record →
        record.lease = lease → u.service.cluster.graph.machineOf record.node = some machine →
        record.agentSession = session)
    (hu : Since join lease machine status u) (hugrounded : Grounded u)
    (hjoin : join.service.cluster = w.service.cluster)
    (hrecovery : join.service.recoveringMachines[machine]? = some recovery)
    (hsettled : endpointsProven join.service recovery lease machine) :
    ∀ generation ∈ adoptedGenerations u.service lease machine, ProvenBy join generation := by
  intro generation hgeneration
  simp only [adoptedGenerations, List.mem_filterMap, mem_bindingsFor hugrounded,
    Option.bind_eq_bind, Option.bind_eq_some_iff] at hgeneration
  obtain ⟨id, ⟨record, hrecord, hlease⟩, found, hfound, hmade⟩ := hgeneration
  rw [hrecord] at hfound
  cases hfound
  split at hmade
  · rename_i hon
    cases hmade
    simp only [Bool.and_eq_true, decide_eq_true_eq] at hon
    -- the binding stood at the join as it stands now, up to its session
    have hsame := hu.bindings id
    rw [hrecord] at hsame
    cases hbefore : join.service.cluster.bindings[id]? with
    | none => simp [hbefore] at hsame
    | some before =>
      rw [hbefore] at hsame
      simp only [Option.map_some, Option.some.injEq, unsessioned, Binding.mk.injEq] at hsame
      obtain ⟨-, hsameLease, hnode, -, -, hfence, -, hstate, -⟩ := hsame
      have hmachine : join.service.cluster.graph.machineOf before.node = some machine := by
        rw [← hu.graph, ← hnode]
        exact hon.2
      unfold endpointsProven at hsettled
      rw [Bool.and_eq_true] at hsettled
      refine ⟨lease, machine, status, recovery, before, hu.seen, hrecovery, hbefore,
        hsameLease ▸ hlease, hmachine, fun session hcurrent => ?_, hfence.symm, hsettled.1, ?_⟩
      · exact (hsession session hcurrent id record hrecord hlease hon.2).symm
      · refine List.all_eq_true.mp hsettled.2 before ?_
        have hmem : id ∈ w.service.bindingsFor lease := (mem_bindingsFor hw).mpr
          ⟨before, by rw [← hjoin]; exact hbefore, hsameLease ▸ hlease⟩
        simp only [openBindingsOn, List.mem_filter, List.mem_filterMap]
        refine ⟨⟨id, ?_, hbefore⟩, ?_⟩
        · unfold NodeService.bindingsFor at hmem ⊢
          rw [hjoin]
          exact hmem
        · rw [← hstate, hon.1]
          simp [hmachine, BindingState.isClosed]
  · cases hmade

theorem tolerate_some {program : ServiceM α} {a : α} {u : World} :
    tolerate program w = .ok (some a) u ↔ program w = .ok a u := by
  unfold tolerate
  cases program w with
  | ok b t => simp
  | error fault t => cases fault <;> simp

theorem settleMember_follows {recovery : MachineRecovery}
    (h : Since join lease machine status w) (hw : Grounded w)
    (hjoin : join.service.cluster = w.service.cluster)
    (hrecovery : join.service.recoveringMachines[machine]? = some recovery)
    (hproven : join.service.leaseIsActive lease → (status.running || status.exitCode.isSome) →
      endpointsProven join.service recovery lease machine) :
    Follows (Move own) w (settleMember lease machine status) := by
  have hrevoke : ∀ event, (∀ lease machine running exitCode,
      event ≠ .memberRecovered lease machine running exitCode) → Moving (Move own) (do
        report event
        commitLenient (.revokeLease lease)
        return [lease]) := fun event hevent =>
    (report_moving hevent).bind fun _ => (commitLenient_moving rfl).bind fun _ => .pure _
  unfold settleMember
  refine follows_self (.ite (fun _ => ?_) fun hterminal => ?_)
  · exact (resolveTerminalMember_follows h).bind fun _ _ _ => .pure _
  refine .ite (fun hstatus => ?_) fun _ => hrevoke _ (by simp) _
  refine (tolerate_moving (rebindLeaseMachine_moving lease machine) _).bind fun rebound u hu => ?_
  cases rebound with
  | none => exact hrevoke _ (by simp) u
  | some _ =>
    have hrebind := tolerate_some.mp hu
    have hsettling := (rebindLeaseMachine_settles lease machine _ hw).ok_related hrebind
    have hlater := h.later hw
      ((rebindLeaseMachine_quiet lease machine _).ok_related hrebind) hsettling
    have hgrounded := hsettling.grounded hw
    have hopen : join.service.leaseIsTerminal lease = false := by
      unfold NodeService.leaseIsTerminal at hterminal ⊢
      rw [hjoin]
      exact Bool.eq_false_iff.mpr hterminal
    refine adoptMember_follows hlater hgrounded hopen hstatus fun generation hgeneration hactive => ?_
    refine proven_of_join hw (fun session hcurrent id record hrecord hof hon => ?_) hlater hgrounded
      hjoin hrecovery (hproven hactive hstatus) generation hgeneration
    rw [hjoin] at hcurrent
    rw [hsettling.graph] at hon
    exact rebindLeaseMachine_current hw hcurrent hrebind hrecord hof hon

theorem resolveTerminalMember_settles (lease : LeaseId) (machine : NodeId) (status : MemberStatus) :
    Guided Grounded Settling (resolveTerminalMember lease machine status) := by
  intro w hw
  have hrest : Guided Grounded Settling (do
      let _ ← tolerate (maybeStopExecutions lease)
      let _ ← tolerate driveHeldEffects
      report (.terminalMemberResolved lease machine)) :=
    Guided.bind settling_grounded (.of_moving (tolerate_moving fun t =>
      (maybeStopExecutions_called lease t).weaken fun _ _ => Called.settling)) fun _ =>
      Guided.bind settling_grounded (fun t ht => tolerate_follows (driveHeldEffects_settles t ht)) fun _ =>
        .of_moving (report_settles _)
  unfold resolveTerminalMember
  refine follows_self ?_
  split
  · split
    · exact follows_update_bind (.of_eq rfl rfl) (hrest _ hw)
    · exact hrest w hw
  · exact hrest w hw

theorem adoptMember_settles (lease : LeaseId) (machine : NodeId) (status : MemberStatus) :
    Guided Grounded Settling (adoptMember lease machine status) := by
  intro w hw
  have hrest : Guided Grounded Settling (do
      let finished ← resolveObservedCompletion lease
      report (.memberRecovered lease machine status.running status.exitCode)
      return finished) :=
    Guided.bind settling_grounded (resolveObservedCompletion_settles lease) fun _ =>
      Guided.bind settling_grounded (.of_moving (report_settles _)) fun _ => .pure _
  unfold adoptMember
  refine follows_update_bind (.of_eq rfl rfl) (follows_self ?_)
  split
  · refine follows_update_bind (.of_eq rfl rfl) ?_
    split
    · exact follows_update_bind (.of_eq rfl rfl) (hrest _ hw)
    · exact hrest _ hw
  · exact hrest _ hw

theorem resolveRecoveredMember_settles (lease : LeaseId) (machine : NodeId) (status : MemberStatus) :
    Guided Grounded Settling (resolveRecoveredMember lease machine status) := by
  have hrevoke : ∀ event, Guided Grounded Settling (do
      report event
      commitLenient (.revokeLease lease)
      return [lease]) := fun event =>
    Guided.bind settling_grounded (.of_moving (report_settles event)) fun _ =>
      Guided.bind settling_grounded (commitLenient_settles rfl) fun _ => .pure _
  unfold resolveRecoveredMember
  refine Guided.bind settling_grounded (.of_moving fun _ => follows_update (.of_eq rfl rfl)) fun _ => ?_
  intro w hw
  unfold settleMember
  refine follows_self (.ite (fun _ => ?_) fun _ => .ite (fun _ => ?_) fun _ => hrevoke _ w hw)
  · exact (resolveTerminalMember_settles lease machine status w hw).bind fun _ _ _ => .pure _
  · refine Guided.bind settling_grounded (fun t ht => tolerate_follows
      (rebindLeaseMachine_settles lease machine t ht)) (fun rebound => ?_) w hw
    cases rebound with
    | none => exact hrevoke _
    | some _ => exact adoptMember_settles lease machine status

end Since

/-! The join. -/

theorem mem_openBindingsOn (h : Grounded w) {lease : LeaseId} {machine : NodeId} {record : Binding} :
    record ∈ openBindingsOn w.service lease machine ↔
      ∃ id : BindingId, w.service.cluster.bindings[id]? = some record ∧ record.lease = lease ∧
        record.state.isClosed = false ∧
        w.service.cluster.graph.machineOf record.node = some machine := by
  simp only [openBindingsOn, List.mem_filter, List.mem_filterMap, mem_bindingsFor h,
    Bool.and_eq_true, Bool.not_eq_true', decide_eq_true_eq]
  constructor
  · rintro ⟨⟨id, ⟨found, hfound, hlease⟩, hrecord⟩, hopen, hmachine⟩
    rw [hrecord] at hfound
    cases hfound
    exact ⟨id, hrecord, hlease, hopen, hmachine⟩
  · rintro ⟨id, hrecord, hlease, hopen, hmachine⟩
    exact ⟨⟨id, ⟨record, hrecord, hlease⟩, hrecord⟩, hopen, hmachine⟩

/-- A proof does not speak about sessions. -/
theorem endpointsProven_settling {u : World} (h : Settling w u) (hw : Grounded w)
    {recovery : MachineRecovery} {lease : LeaseId} {machine : NodeId}
    (hproven : endpointsProven w.service recovery lease machine) :
    endpointsProven u.service recovery lease machine := by
  unfold endpointsProven at hproven ⊢
  rw [Bool.and_eq_true] at hproven ⊢
  refine ⟨hproven.1, List.all_eq_true.mpr fun record hrecord => ?_⟩
  obtain ⟨id, hfound, hlease, hopen, hmachine⟩ := (mem_openBindingsOn (h.grounded hw)).mp hrecord
  have hsame := h.bindings id
  rw [hfound] at hsame
  cases hbefore : w.service.cluster.bindings[id]? with
  | none => simp [hbefore] at hsame
  | some before =>
    rw [hbefore] at hsame
    have hunsessioned : unsessioned record = unsessioned before := Option.some.inj hsame
    have hmem : before ∈ openBindingsOn w.service lease machine := by
      simp only [unsessioned, Binding.mk.injEq] at hunsessioned
      obtain ⟨-, hsameLease, hnode, -, -, -, -, hstate, -⟩ := hunsessioned
      refine (mem_openBindingsOn hw).mpr ⟨id, hbefore, hsameLease ▸ hlease, hstate ▸ hopen, ?_⟩
      rw [← h.graph, ← hnode]
      exact hmachine
    have hbeforeProven : recovery.proves (unsessioned before) := List.all_eq_true.mp hproven.2 before hmem
    rw [← hunsessioned] at hbeforeProven
    exact hbeforeProven

/-- The evidence about some members of a returning machine is complete. -/
def Ready (s : NodeService) (machine : NodeId) (members : List (LeaseId × MemberStatus)) : Prop :=
  ∃ recovery, s.recoveringMachines[machine]? = some recovery ∧ ∀ member ∈ members,
    recovery.members[member.1]? = some (some member.2) ∧
      (s.leaseIsActive member.1 → (member.2.running || member.2.exitCode.isSome) →
        endpointsProven s recovery member.1 machine)

theorem mem_readyMembers {s : NodeService} {recovery : MachineRecovery} {machine : NodeId}
    {entry : LeaseId × Option MemberStatus} {member : LeaseId × MemberStatus}
    (h : (do
      let status ← entry.2
      let needsAdoption := s.leaseIsActive entry.1 && (status.running || status.exitCode.isSome)
      if !needsAdoption || endpointsProven s recovery entry.1 machine then some (entry.1, status)
      else none) = some member) :
    entry = (member.1, some member.2) ∧
      (s.leaseIsActive member.1 → (member.2.running || member.2.exitCode.isSome) →
        endpointsProven s recovery member.1 machine) := by
  obtain ⟨lease, status⟩ := entry
  cases status with
  | none => cases h
  | some status =>
    simp only [Option.bind_eq_bind, Option.bind_some] at h
    split at h
    · rename_i hready
      cases h
      refine ⟨rfl, fun hactive hstatus => ?_⟩
      simpa [hactive, hstatus] using hready
    · cases h

theorem readyMembers_ready {machine : NodeId} {recovery : MachineRecovery}
    (h : w.service.recoveringMachines[machine]? = some recovery) :
    Ready w.service machine (readyMembers w.service recovery machine) ∧
      ((readyMembers w.service recovery machine).map Prod.fst).Nodup := by
  constructor
  · refine ⟨recovery, h, fun member hmember => ?_⟩
    obtain ⟨entry, hentry, hready⟩ := List.mem_filterMap.mp hmember
    obtain ⟨rfl, hproven⟩ := mem_readyMembers hready
    exact ⟨Std.ExtTreeMap.mem_toList_iff_getElem?_eq_some.mp hentry, hproven⟩
  · have hdistinct := Std.ExtTreeMap.nodup_keys (t := recovery.members)
    rw [← Std.ExtTreeMap.map_fst_toList_eq_keys, List.Nodup, List.pairwise_map] at hdistinct
    rw [List.Nodup, List.pairwise_map]
    refine hdistinct.filterMap _ fun entry other hne member hmember another hanother => ?_
    rw [(mem_readyMembers hmember).1, (mem_readyMembers hanother).1] at hne
    exact hne

theorem resolveReady_follows {machine : NodeId} {lease : LeaseId} {status : MemberStatus}
    {rest : List (LeaseId × MemberStatus)} (h : Ready w.service machine ((lease, status) :: rest))
    (hw : Grounded w) : Follows (Move own) w (resolveReady machine lease status) := by
  obtain ⟨recovery, hrecovery, hmembers⟩ := h
  obtain ⟨hmember, hproven⟩ := hmembers (lease, status) List.mem_cons_self
  unfold resolveReady
  refine follows_observe_update (.join hrecovery hmember hproven) ?_
  refine follows_update_bind (.inert _ _ _ _ _ _) ?_
  have hsince : Since ⟨w.service, .joined lease machine status⟩ lease machine status
      (w.observe (.joined lease machine status)) :=
    ⟨rfl, ⟨w.trace, [], rfl, by simp, .inl rfl⟩, rfl, rfl, fun _ => rfl⟩
  exact settleMember_follows (hsince.same rfl rfl) hw rfl hrecovery hproven

theorem resolveReady_run (machine : NodeId) (lease : LeaseId) (status : MemberStatus) :
    resolveReady machine lease status w =
      resolveRecoveredMember lease machine status (w.join lease machine status) := rfl

theorem resolveReady_ready {machine : NodeId} {lease : LeaseId} {status : MemberStatus}
    {rest : List (LeaseId × MemberStatus)} {finished : List LeaseId} {u : World}
    (h : Ready w.service machine ((lease, status) :: rest)) (hw : Grounded w)
    (hrest : lease ∉ rest.map Prod.fst) (hrun : resolveReady machine lease status w = .ok finished u) :
    Ready u.service machine rest ∧ Grounded u := by
  obtain ⟨recovery, hrecovery, hmembers⟩ := h
  rw [resolveReady_run] at hrun
  have hsettling : Settling (w.join lease machine status) u := by
    refine Follows.ok_related ?_ hrun
    exact resolveRecoveredMember_settles lease machine status _ hw
  refine ⟨⟨{ recovery with members := recovery.members.erase lease }, ?_, fun member hmember => ?_⟩,
    hsettling.grounded hw⟩
  · rw [hsettling.recovering]
    change (w.service.recoveringMachines.modify machine _)[machine]? = _
    rw [OrdMap.get_modify, if_pos rfl, hrecovery]
    rfl
  · obtain ⟨hkept, hproven⟩ := hmembers member (List.mem_cons_of_mem _ hmember)
    have hother : lease ≠ member.1 := by
      rintro rfl
      exact hrest (List.mem_map_of_mem hmember)
    refine ⟨?_, fun hactive hstatus => ?_⟩
    · rw [OrdMap.get_erase, if_neg hother]
      exact hkept
    · exact endpointsProven_settling hsettling hw (hproven (hsettling.active _ hactive) hstatus)

theorem resolveAll_follows {machine : NodeId} {members : List (LeaseId × MemberStatus)}
    (h : Ready w.service machine members) (hdistinct : (members.map Prod.fst).Nodup)
    (hw : Grounded w) :
    Follows (Move own) w (members.mapM fun member => resolveReady machine member.1 member.2) := by
  induction members generalizing w with
  | nil =>
    rw [List.mapM_nil]
    exact .pure _
  | cons member rest ih =>
    rw [List.mapM_cons]
    obtain ⟨hfresh, hrest⟩ := List.nodup_cons.mp hdistinct
    refine (resolveReady_follows h hw).bind fun finished u hu => ?_
    obtain ⟨hready, hgrounded⟩ := resolveReady_ready h hw hfresh hu
    exact (ih hready hrest hgrounded).bind fun _ _ _ => .pure _

theorem finishMachineRecovery_moving (machine : NodeId) :
    Moving (Move own) (finishMachineRecovery machine) := by
  intro w
  unfold finishMachineRecovery
  exact follows_observe_update (.recovered machine) ((commitLenient_moving rfl _).bind fun _ t _ =>
    commitLenient_moving rfl t)

theorem resolveMachineRecovery_follows (machine : NodeId) :
    Guided Grounded (Move own) (resolveMachineRecovery machine) := by
  intro w hw
  unfold resolveMachineRecovery
  refine follows_self ?_
  split
  · exact .pure _
  · rename_i recovery hrecovery
    obtain ⟨hready, hdistinct⟩ := readyMembers_ready hrecovery
    refine (resolveAll_follows hready hdistinct hw).bind fun finished u _ => follows_self ?_
    split
    · exact (finishMachineRecovery_moving machine u).bind fun _ _ _ => .pure _
    · exact .pure _

end Archon.Node.Service
