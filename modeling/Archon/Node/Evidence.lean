import Archon.Node.Chronicle

/-! What a returning machine has shown. A recovery holds the answers of the session it
is for, and a member is joined with no others. -/
namespace Archon.Node
open Archon.Kernel Fallible Service

/-! Answers of the current session. -/

/-- An answer of the session the machine is in gave this status of a member. -/
def Reported (trace : List Entry) (cluster : Cluster) (machine : NodeId) (lease : LeaseId)
    (status : MemberStatus) : Prop :=
  ∃ session reply, cluster.sessions[machine]? = some session ∧
    (∃ entry ∈ trace, entry.seen = .absorbed (.status lease machine session) reply) ∧
    status = (reportedStatus lease reply).getD .unknown

/-- An answer of the session the machine is in listed these endpoints, and they agreed
with the records of that moment. -/
def Enumerated (trace : List Entry) (cluster : Cluster) (machine : NodeId)
    (endpoints : List EnumeratedEndpoint) : Prop :=
  ∃ session, cluster.sessions[machine]? = some session ∧ ∃ entry ∈ trace,
    entry.seen = .absorbed (.enumerate machine session) (.ok (.bindingsEnumerated endpoints)) ∧
    endpoints.any (inconsistent entry.service machine) = false

/-- Only an answer about the lease itself reports a member running or exited. -/
theorem reply_of_alive {lease : LeaseId} {reply : AgentReply} {status : MemberStatus}
    (h : status = (reportedStatus lease reply).getD .unknown)
    (halive : status.running || status.exitCode.isSome) :
    reply = .ok (.running lease.asU64 status.running status.exitCode) := by
  cases hreported : reportedStatus lease reply with
  | none =>
    rw [hreported] at h
    subst h
    cases halive
  | some found =>
    rw [hreported, Option.getD_some] at h
    subst h
    unfold reportedStatus at hreported
    split at hreported
    · split at hreported
      · rename_i hlease
        cases hreported
        rw [hlease]
      · cases hreported
    · cases hreported

/-- Nothing has been answered yet. -/
structure MachineRecovery.Blank (recovery : MachineRecovery) : Prop where
  members : ∀ (lease : LeaseId) status, recovery.members[lease]? ≠ some (some status)
  endpoints : recovery.endpoints = none

theorem MachineRecovery.blank_new (session : UInt64) : (MachineRecovery.new session).Blank :=
  ⟨fun _ _ => by simp [MachineRecovery.new], rfl⟩

/-- The recovery holds no answers but those of the session. -/
structure MachineRecovery.Holds (recovery : MachineRecovery) (trace : List Entry) (cluster : Cluster)
    (machine : NodeId) : Prop where
  members : ∀ (lease : LeaseId) status, recovery.members[lease]? = some (some status) →
    Reported trace cluster machine lease status
  endpoints : ∀ endpoints, recovery.endpoints = some endpoints → Enumerated trace cluster machine endpoints

/-- What a step adds to the recovery of a machine comes from an answer. -/
structure MachineRecovery.Adds (old recovery : MachineRecovery) (trace : List Entry) (cluster : Cluster)
    (machine : NodeId) : Prop where
  members : ∀ (lease : LeaseId) status, recovery.members[lease]? = some (some status) →
    old.members[lease]? = some (some status) ∨ Reported trace cluster machine lease status
  endpoints : ∀ endpoints, recovery.endpoints = some endpoints →
    old.endpoints = some endpoints ∨ Enumerated trace cluster machine endpoints

section Answers
variable {trace trace' : List Entry} {cluster cluster' : Cluster} {machine : NodeId}
  {recovery old : MachineRecovery}

theorem Reported.kept {lease : LeaseId} {status : MemberStatus} (h : Reported trace cluster machine lease status)
    (htrace : trace <+: trace') (hsession : cluster'.sessions[machine]? = cluster.sessions[machine]?) :
    Reported trace' cluster' machine lease status := by
  obtain ⟨session, reply, hcurrent, ⟨entry, hentry, hseen⟩, hstatus⟩ := h
  exact ⟨session, reply, hsession.trans hcurrent, ⟨entry, htrace.subset hentry, hseen⟩, hstatus⟩

theorem Enumerated.kept {endpoints : List EnumeratedEndpoint}
    (h : Enumerated trace cluster machine endpoints) (htrace : trace <+: trace')
    (hsession : cluster'.sessions[machine]? = cluster.sessions[machine]?) :
    Enumerated trace' cluster' machine endpoints := by
  obtain ⟨session, hcurrent, entry, hentry, hseen⟩ := h
  exact ⟨session, hsession.trans hcurrent, entry, htrace.subset hentry, hseen⟩

namespace MachineRecovery

theorem Blank.holds (h : recovery.Blank) : recovery.Holds trace cluster machine :=
  ⟨fun lease status hstatus => absurd hstatus (h.members lease status), fun endpoints hendpoints => by
    rw [h.endpoints] at hendpoints
    cases hendpoints⟩

theorem Adds.refl : recovery.Adds recovery trace cluster machine :=
  ⟨fun _ _ h => .inl h, fun _ h => .inl h⟩

theorem Holds.adds (h : old.Holds trace cluster machine) (hadds : old.Adds recovery trace' cluster' machine)
    (htrace : trace <+: trace') (hsession : cluster'.sessions[machine]? = cluster.sessions[machine]?) :
    recovery.Holds trace' cluster' machine := by
  constructor
  · intro lease status hstatus
    rcases hadds.members lease status hstatus with hold | hnew
    · exact (h.members lease status hold).kept htrace hsession
    · exact hnew
  · intro endpoints hendpoints
    rcases hadds.endpoints endpoints hendpoints with hold | hnew
    · exact (h.endpoints endpoints hold).kept htrace hsession
    · exact hnew

end MachineRecovery
end Answers

/-! What a step does to the recoveries. -/

/-- A recovering machine has a session. -/
def Sessioned (w : World) : Prop :=
  ∀ machine ∈ w.service.recoveringMachines, machine ∈ w.service.cluster.sessions

/-- A recovery is blank or goes on in its session. -/
structure Gathers (w u : World) : Prop where
  grows : w.trace <+: u.trace
  gathered : ∀ (machine : NodeId) recovery, u.service.recoveringMachines[machine]? = some recovery →
    (recovery.Blank ∧ machine ∈ u.service.cluster.sessions) ∨
    ∃ old, w.service.recoveringMachines[machine]? = some old ∧
      u.service.cluster.sessions[machine]? = w.service.cluster.sessions[machine]? ∧
      old.Adds recovery u.trace u.service.cluster machine

variable {own : Bool} {licence : Licence} {w u : World}

theorem Gathers.still (htrace : w.trace <+: u.trace)
    (hrecovering : u.service.recoveringMachines = w.service.recoveringMachines)
    (hsessions : u.service.cluster.sessions = w.service.cluster.sessions) : Gathers w u :=
  ⟨htrace, fun machine recovery h => .inr ⟨recovery, by rw [← hrecovering]; exact h, by rw [hsessions], .refl⟩⟩

theorem Gathers.commit {command : Command} {effects : List Effect} {cluster : Cluster}
    (hplain : isHello command = false)
    (happly : Cluster.apply command w.service.cluster = .ok effects cluster) :
    Gathers w (w.commit command effects cluster) := by
  refine .still ?_ (by rw [service_commit]) ?_
  · rw [trace_commit_eq]
    exact List.prefix_append _ _
  · rw [service_commit]
    exact Cluster.sessions_of_apply hplain happly

theorem Gathers.observed {seen : Observation} (h : Gathers (w.observe seen) u) : Gathers w u :=
  ⟨(List.prefix_append _ _).trans h.grows, h.gathered⟩

/-- A change of one recovery. -/
theorem Gathers.revise {machine : NodeId} {f : MachineRecovery → MachineRecovery}
    (h : ∀ old, w.service.recoveringMachines[machine]? = some old →
      old.Adds (f old) w.trace w.service.cluster machine) : Gathers w (w.updateRecovery machine f) := by
  refine ⟨List.prefix_rfl, fun other recovery hrecovery => .inr ?_⟩
  simp only [World.updateRecovery, World.update, OrdMap.get_modify] at hrecovery
  split at hrecovery
  · rename_i heq
    subst heq
    obtain ⟨old, hold, rfl⟩ := Option.map_eq_some_iff.mp hrecovery
    exact ⟨old, hold, rfl, h old hold⟩
  · exact ⟨recovery, hrecovery, rfl, .refl⟩

/-- A commit of a session: the recovery of its machine is blank. -/
theorem Gathers.hello {machine : NodeId} {session : UInt64} {effects : List Effect} {cluster : Cluster}
    (hw : Sessioned w) (hblank : w.service.recoveringMachines[machine]? = some (.new session) ∨
      machine ∉ w.service.cluster.sessions)
    (happly : Cluster.apply (.setAgentSession machine session) w.service.cluster = .ok effects cluster) :
    Gathers w (w.commit (.setAgentSession machine session) effects cluster) := by
  obtain ⟨rfl, -⟩ := Cluster.sessions_of_hello happly
  constructor
  · rw [trace_commit_eq]
    exact List.prefix_append _ _
  · intro other recovery hrecovery
    rw [service_commit] at hrecovery ⊢
    dsimp only at hrecovery ⊢
    by_cases hother : machine = other
    · subst hother
      rcases hblank with hnew | hnone
      · rw [hnew] at hrecovery
        cases hrecovery
        exact .inl ⟨MachineRecovery.blank_new session, by simp⟩
      · exact absurd (hw machine (OrdMap.mem_iff.mpr ⟨recovery, hrecovery⟩)) hnone
    · refine .inr ⟨recovery, hrecovery, ?_, .refl⟩
      rw [OrdMap.get_insert, if_neg hother]

/-- A lease that is awaited has not answered. -/
theorem awaited {leases : List LeaseId} {members : OrdMap LeaseId (Option MemberStatus)} {lease : LeaseId}
    {status : MemberStatus} (h : (leases.foldl (fun members lease => members.insertIfNew lease none)
      members)[lease]? = some (some status)) : members[lease]? = some (some status) := by
  induction leases generalizing members with
  | nil => exact h
  | cons first rest ih =>
    have hrest := ih h
    rw [OrdMap.get_insertIfNew] at hrest
    split at hrest
    · cases hfound : members[lease]? with
      | none => simp [hfound] at hrest
      | some found =>
        rw [hfound] at hrest
        exact hrest
    · exact hrest

theorem Move.gathers (h : Move true w u) (hground : Grounded w) (hw : Sessioned w) : Gathers w u := by
  cases h with
  | commit hplain happly => exact .commit (Cluster.plain_of_unguarded hplain).1 happly
  | hello hblank happly => exact .hello hw (hblank rfl) happly
  | refuse happly =>
    obtain rfl := Cluster.Reachable.refused hground happly
    exact .still List.prefix_rfl rfl rfl
  | call =>
    unfold World.call
    split
    · exact .still (List.prefix_append _ _) rfl rfl
    · exact .still List.prefix_rfl rfl rfl
  | answerStart lease machine session reply =>
    refine answerStart_cases lease machine session reply (fun _ => ?_) ?_ fun _ _ _ happly => ?_
    · exact .still (List.prefix_append _ _) rfl rfl
    · intro reason effects cluster happly
      have hcommit := @Gathers.commit (w.answer (.executionStart lease machine session) reply) _ _ _ rfl happly
      exact ⟨(List.prefix_append _ _).trans hcommit.grows, hcommit.gathered⟩
    · obtain rfl := Cluster.Reachable.refused hground happly
      exact .still (List.prefix_append _ _) rfl rfl
  | recover session hknown =>
    refine ⟨List.prefix_append _ _, fun other recovery hrecovery => ?_⟩
    simp only [World.observe, World.update, OrdMap.get_insert] at hrecovery
    split at hrecovery
    · rename_i heq
      cases hrecovery
      exact .inl ⟨MachineRecovery.blank_new session, heq ▸ hknown⟩
    · exact .inr ⟨recovery, hrecovery, rfl, .refl⟩
  | await machine leases =>
    exact .revise fun old _ => ⟨fun lease status h => .inl (awaited h), fun _ h => .inl h⟩
  | status hsaw hsession =>
    refine .revise fun old _ => ⟨fun lease status h => ?_, fun _ h => .inl h⟩
    rw [OrdMap.get_insert] at h
    split at h
    · rename_i heq
      subst heq
      cases h
      exact .inr ⟨_, _, hsession, hsaw, rfl⟩
    · exact .inl h
  | endpoints hentry hseen hconsistent hsession =>
    exact .revise fun old _ => ⟨fun _ _ h => .inl h, fun endpoints heq => by
      cases heq
      exact .inr ⟨_, hsession, _, hentry, hseen, hconsistent⟩⟩
  | stray machine tag => exact .revise fun old _ => ⟨fun _ _ h => .inl h, fun _ h => .inl h⟩
  | closed => exact .revise fun old _ => ⟨fun _ _ h => .inl h, fun _ h => .inl h⟩
  | join =>
    refine .observed (.revise fun old _ => ⟨fun lease status h => .inl ?_, fun _ h => .inl h⟩)
    rw [OrdMap.get_erase] at h
    split at h
    · cases h
    · exact h
  | recovered machine =>
    refine ⟨List.prefix_append _ _, fun other recovery hrecovery => ?_⟩
    simp only [World.observe, World.update, OrdMap.get_erase] at hrecovery
    split at hrecovery
    · cases hrecovery
    · exact .inr ⟨recovery, hrecovery, rfl, .refl⟩
  | clock | persist | answer | pop | drain | report | hold | rehold | activate | adopt | start | stop
  | session | inert => exact .still (by first | exact List.prefix_rfl | exact List.prefix_append _ _) rfl rfl

theorem isHello_of_opensLease {command : Command} (h : opensLease command) : isHello command = false := by
  cases command with
  | setAgentSession => cases h
  | _ => rfl

theorem Stir.gathers (hown : licence.sessions = false) (h : Stir licence w u) (hground : Grounded w)
    (hw : Sessioned w) : Gathers w u := by
  cases h with
  | move hmove =>
    rw [hown] at hmove
    exact Move.gathers hmove hground hw
  | opening _ hopens happly => exact .commit (isHello_of_opensLease hopens) happly
  | @grant admission effects cluster index queued _ _ _ happly =>
    have hcommit := @Gathers.commit (w.setState (w.service.state.admitted admission index))
      (w.openCommand admission) effects cluster rfl happly
    exact ⟨hcommit.grows, hcommit.gathered⟩
  | deny _ _ _ happly =>
    obtain rfl := Cluster.Reachable.refused hground happly
    exact .still List.prefix_rfl rfl rfl
  | enqueue | enroll | draw | restart | cancel | enlist => exact .still (List.prefix_append _ _) rfl rfl
  | bind | tally | giveUp | regroup | restore => exact .still List.prefix_rfl rfl rfl

/-! What a step makes of one recovery. -/

/-- The recovery of a machine is the one it was, begins, or takes up one piece of evidence. -/
inductive Revised (w u : World) (machine : NodeId) : MachineRecovery → Prop where
  | same {recovery : MachineRecovery} (hold : w.service.recoveringMachines[machine]? = some recovery) :
      Revised w u machine recovery
  | begun (session : UInt64) (htrace : u.trace = w.trace ++ [⟨w.service, .recovering machine⟩]) :
      Revised w u machine (.new session)
  | await {old : MachineRecovery} (hold : w.service.recoveringMachines[machine]? = some old)
      (leases : List LeaseId)
      (hleases : ∀ lease ∈ leases, ∃ (id : BindingId) (record : Binding),
        w.service.cluster.bindings[id]? = some record ∧ record.lease = lease ∧
          ∃ found, w.service.cluster.leases[lease]? = some found ∧ found.state ≠ .preparing) :
      Revised w u machine { old with
        members := leases.foldl (fun members lease => members.insertIfNew lease none) old.members }
  | status {old : MachineRecovery} {lease : LeaseId} {session : UInt64} {reply : AgentReply}
      (hold : w.service.recoveringMachines[machine]? = some old)
      (hsaw : w.Saw (.absorbed (.status lease machine session) reply))
      (hsession : w.service.cluster.sessions[machine]? = some session) (hawaited : lease ∈ old.members) :
      Revised w u machine { old with
        members := old.members.insert lease (some ((reportedStatus lease reply).getD .unknown)) }
  | endpoints {old : MachineRecovery} (hold : w.service.recoveringMachines[machine]? = some old)
      (endpoints : List EnumeratedEndpoint) :
      Revised w u machine { old with endpoints := some endpoints }
  | stray {old : MachineRecovery} (hold : w.service.recoveringMachines[machine]? = some old) (tag : Tag) :
      Revised w u machine { old with strayFences := insert tag old.strayFences }
  | closed {old : MachineRecovery} {session : UInt64} {node : NodeId} {provider : ProviderId}
      {scope : BindingScope} {id : BindingId} {fence : UInt64} {entry : Entry}
      (hold : w.service.recoveringMachines[machine]? = some old)
      (hentry : w.trace.getLast? = some entry)
      (hseen : entry.seen = .absorbed (.strayFence machine session node provider scope id fence)
        (.ok (.fenced id.asU64))) :
      Revised w u machine { old with
        strayFences := old.strayFences.erase (.strayFence machine session node provider scope id fence) }
  | join {old : MachineRecovery} (hold : w.service.recoveringMachines[machine]? = some old)
      (lease : LeaseId) : Revised w u machine { old with members := old.members.erase lease }

theorem revised_of_modify {machine host : NodeId} {recovery : MachineRecovery}
    {f : MachineRecovery → MachineRecovery}
    (h : (w.service.recoveringMachines.modify host f)[machine]? = some recovery)
    (hrevised : ∀ old, w.service.recoveringMachines[host]? = some old → Revised w u host (f old)) :
    Revised w u machine recovery := by
  rw [OrdMap.get_modify] at h
  split at h
  · rename_i heq
    subst heq
    obtain ⟨old, hold, rfl⟩ := Option.map_eq_some_iff.mp h
    exact hrevised old hold
  · exact .same h

theorem Move.revised {machine : NodeId} {recovery : MachineRecovery} (h : Move own w u)
    (hrecovery : u.service.recoveringMachines[machine]? = some recovery) :
    Revised w u machine recovery := by
  cases h with
  | commit | hello =>
    rw [service_commit] at hrecovery
    exact .same hrecovery
  | call =>
    unfold World.call at hrecovery
    split at hrecovery
    · exact .same hrecovery
    · exact .same hrecovery
  | answerStart lease host session reply =>
    rcases after_answerStart (w := w) lease host session reply with ⟨heq, -⟩ | heq | ⟨reason, -, heq⟩
    · rw [heq] at hrecovery
      exact .same hrecovery
    · rw [heq] at hrecovery
      exact .same hrecovery
    · rw [heq] at hrecovery
      refine .same ?_
      cases happly : Cluster.apply (.failLease lease reason) w.service.cluster with
      | error e left =>
        rw [after_of_error (@commit_run_error (w.answer _ reply) _ _ _ happly)] at hrecovery
        exact hrecovery
      | ok effects cluster =>
        rw [after_of_ok (@commit_run_ok (w.answer _ reply) _ _ _ happly), service_commit] at hrecovery
        exact hrecovery
  | recover session =>
    simp only [World.observe, World.update, OrdMap.get_insert] at hrecovery
    split at hrecovery
    · rename_i heq
      subst heq
      cases hrecovery
      exact .begun session rfl
    · exact .same hrecovery
  | await host leases hleases => exact revised_of_modify hrecovery fun old hold => .await hold leases hleases
  | status hsaw hsession hawaited =>
    refine revised_of_modify hrecovery fun old hold => .status hold hsaw hsession ?_
    rwa [awaitsRecovery, hold, Option.any_some, decide_eq_true_eq] at hawaited
  | endpoints => exact revised_of_modify hrecovery fun old hold => .endpoints hold _
  | stray host tag => exact revised_of_modify hrecovery fun old hold => .stray hold tag
  | closed hentry hseen => exact revised_of_modify hrecovery fun old hold => .closed hold hentry hseen
  | @join host _ lease => exact revised_of_modify hrecovery fun old hold => .join hold _
  | recovered host =>
    simp only [World.observe, World.update, OrdMap.get_erase] at hrecovery
    split at hrecovery
    · cases hrecovery
    · exact .same hrecovery
  | persist | answer | pop | drain | report | refuse | clock | hold | rehold | activate | adopt | start
  | stop | session | inert => exact .same hrecovery

theorem Stir.revised {machine : NodeId} {recovery : MachineRecovery} (h : Stir licence w u)
    (hrecovery : u.service.recoveringMachines[machine]? = some recovery) :
    Revised w u machine recovery := by
  cases h with
  | move hmove => exact Move.revised hmove hrecovery
  | opening =>
    rw [service_commit] at hrecovery
    exact .same hrecovery
  | grant =>
    rw [service_commit] at hrecovery
    exact .same hrecovery
  | enqueue | enroll | bind | draw | deny | tally | giveUp | restart | cancel | regroup | enlist | restore =>
    exact .same hrecovery

/-! Joins. -/

def Observation.isJoin : Observation → Bool
  | .joined _ _ _ => true
  | _ => false

/-- What is checked of a member before it is joined. -/
structure Joinable (s : NodeService) (lease : LeaseId) (machine : NodeId) (status : MemberStatus)
    (recovery : MachineRecovery) : Prop where
  recovering : s.recoveringMachines[machine]? = some recovery
  member : recovery.members[lease]? = some (some status)
  proven : s.leaseIsActive lease → (status.running || status.exitCode.isSome) →
    endpointsProven s recovery lease machine

/-- A step joins one member or none. -/
inductive Joins (w u : World) : Prop where
  | none (extra : List Entry) (htrace : u.trace = w.trace ++ extra)
      (h : ∀ entry ∈ extra, entry.seen.isJoin = false)
  | one {lease : LeaseId} {machine : NodeId} {status : MemberStatus} {recovery : MachineRecovery}
      (h : Joinable w.service lease machine status recovery)
      (htrace : u.trace = w.trace ++ [⟨w.service, .joined lease machine status⟩])

theorem Joins.still (h : u.trace = w.trace) : Joins w u :=
  .none [] (by rw [h, List.append_nil]) (by simp)

theorem Joins.other {entry : Entry} (h : u.trace = w.trace ++ [entry]) (hseen : entry.seen.isJoin = false) :
    Joins w u := .none [entry] h (by simpa using hseen)

theorem trace_commit_unjoined (command : Command) (effects : List Effect) (cluster : Cluster) :
    ∃ extra, (w.commit command effects cluster).trace = w.trace ++ extra ∧
      ∀ entry ∈ extra, entry.seen.isJoin = false := by
  refine ⟨_, trace_commit_eq command effects cluster, fun entry hentry => ?_⟩
  rcases List.mem_cons.mp hentry with rfl | hentry
  · rfl
  · split at hentry
    · rw [List.mem_singleton.mp hentry]
      rfl
    · cases hentry

theorem commit_joins (command : Command) (effects : List Effect) (cluster : Cluster) :
    Joins w (w.commit command effects cluster) := by
  obtain ⟨extra, htrace, hextra⟩ := trace_commit_unjoined command effects cluster
  exact .none extra htrace hextra

theorem Move.joins (h : Move own w u) : Joins w u := by
  cases h with
  | commit => exact commit_joins _ _ _
  | hello => exact commit_joins _ _ _
  | call =>
    unfold World.call
    split
    · exact .other rfl rfl
    · exact .still rfl
  | answerStart lease machine session reply =>
    refine answerStart_cases lease machine session reply (fun _ => .other rfl rfl) ?_
      fun _ _ _ _ => .other rfl rfl
    intro reason effects cluster _
    obtain ⟨extra, htrace, hextra⟩ := @trace_commit_unjoined
      (w.answer (.executionStart lease machine session) reply) (.failLease lease reason) effects cluster
    refine .none (_ :: extra) (by rw [htrace]; exact List.append_assoc ..) ?_
    simpa using ⟨rfl, hextra⟩
  | join hrecovery hmember hproven => exact .one ⟨hrecovery, hmember, hproven⟩ rfl
  | persist | answer | pop | drain | report | recover | recovered => exact .other rfl rfl
  | refuse | clock | hold | rehold | activate | adopt | start | stop | await | status | endpoints
  | stray | closed | session | inert => exact .still rfl

theorem Stir.joins (h : Stir licence w u) : Joins w u := by
  cases h with
  | move hmove => exact Move.joins hmove
  | opening => exact commit_joins _ _ _
  | @grant admission effects cluster index =>
    obtain ⟨extra, htrace, hextra⟩ := @trace_commit_unjoined
      (w.setState (w.service.state.admitted admission index)) (w.openCommand admission) effects cluster
    exact .none extra htrace hextra
  | enqueue | enroll | draw | restart | cancel | enlist => exact .other rfl rfl
  | bind | deny | tally | giveUp | regroup | restore => exact .still rfl

/-- A member was joined with answers of the session its machine was in. -/
def JoinShown (before : List Entry) (entry : Entry) : Prop :=
  ∀ lease machine status, entry.seen = .joined lease machine status → ∃ recovery,
    Joinable entry.service lease machine status recovery ∧
    recovery.Holds before entry.service.cluster machine

/-- Every recovery holds answers of its session only, and so did every join. -/
structure Evident (w : World) : Prop where
  sessioned : Sessioned w
  holds : ∀ (machine : NodeId) recovery, w.service.recoveringMachines[machine]? = some recovery →
    recovery.Holds w.trace w.service.cluster machine
  joined : Throughout JoinShown w.trace

theorem Stir.evident (hown : licence.sessions = false) (h : Stir licence w u) (hground : Grounded w)
    (hw : Evident w) : Evident u := by
  have hgathers := h.gathers hown hground hw.sessioned
  refine ⟨fun machine hmachine => ?_, fun machine recovery hrecovery => ?_, ?_⟩
  · obtain ⟨recovery, hrecovery⟩ := OrdMap.mem_iff.mp hmachine
    rcases hgathers.gathered machine recovery hrecovery with ⟨-, hknown⟩ | ⟨old, hold, hsession, -⟩
    · exact hknown
    · have hknown := hw.sessioned machine (OrdMap.mem_iff.mpr ⟨old, hold⟩)
      rw [OrdMap.mem_iff] at hknown ⊢
      rwa [hsession]
  · rcases hgathers.gathered machine recovery hrecovery with ⟨hblank, -⟩ | ⟨old, hold, hsession, hadds⟩
    · exact hblank.holds
    · exact (hw.holds machine old hold).adds hadds hgathers.grows hsession
  · rcases h.joins with ⟨extra, htrace, hextra⟩ | ⟨hjoinable, htrace⟩
    · rw [htrace]
      refine hw.joined.append fun entry hentry before lease machine status hseen => ?_
      have hother := hextra entry hentry
      rw [hseen] at hother
      cases hother
    · rw [htrace]
      refine hw.joined.concat ?_
      rintro lease machine status hseen
      cases hseen
      exact ⟨_, hjoinable, hw.holds _ _ hjoinable.recovering⟩

section Awaited
variable {lease : LeaseId} {machine : NodeId}

/-! Leases past their preparation. -/

def SettledIn (c : Cluster) (lease : LeaseId) : Prop :=
  ∃ record, c.leases[lease]? = some record ∧ record.state.isSettled

theorem SettledIn.turns {c c' : Cluster} (h : SettledIn c lease) (hturns : Turns c c') (hc : c.Reachable) :
    SettledIn c' lease := by
  obtain ⟨record, hrecord, hsettled⟩ := h
  obtain ⟨after, hafter, hstill, -⟩ := hturns.settled hc hrecord hsettled
  exact ⟨after, hafter, hstill⟩

theorem settledIn_of_active {s : NodeService} (h : s.leaseIsActive lease) : SettledIn s.cluster lease := by
  obtain ⟨record, hrecord, hactive⟩ := leaseIsActive_iff.mp h
  exact ⟨record, hrecord, by rw [hactive]; rfl⟩

/-- A settled lease that is not terminal is active. -/
theorem active_of_settled {s : NodeService} (h : SettledIn s.cluster lease)
    (hterminal : s.leaseIsTerminal lease = false) : s.leaseIsActive lease := by
  obtain ⟨record, hrecord, hsettled⟩ := h
  refine leaseIsActive_iff.mpr ⟨record, hrecord, ?_⟩
  rw [NodeService.leaseIsTerminal, hrecord, Option.any_some] at hterminal
  cases hstate : record.state with
  | active => rfl
  | _ =>
    rw [hstate] at hsettled hterminal
    cases hsettled <;> cases hterminal

/-- A settled lease that is not active is dead and stays so. -/
theorem inactive_kept {s s' : NodeService} (hs : SettledIn s.cluster lease)
    (hinactive : s.leaseIsActive lease = false) (hturns : Turns s.cluster s'.cluster)
    (hc : s.cluster.Reachable) : s'.leaseIsActive lease = false := by
  obtain ⟨record, hrecord, hsettled⟩ := hs
  have hdead : record.state.isLive = false := by
    rw [NodeService.leaseIsActive, hrecord, Option.any_some, decide_eq_false_iff_not] at hinactive
    cases hstate : record.state with
    | active => exact absurd hstate hinactive
    | reserved | preparing =>
      rw [hstate] at hsettled
      cases hsettled
    | _ => rfl
  obtain ⟨after, hafter, -, hstays⟩ := hturns.settled hc hrecord hsettled
  have hstill := hstays hdead
  rw [NodeService.leaseIsActive, hafter, Option.any_some, decide_eq_false_iff_not]
  intro hactive
  rw [hactive] at hstill
  cases hstill

/-! Awaited and joined leases. -/

/-- The recovery of the machine waits for the lease. -/
def Awaits (s : NodeService) (machine : NodeId) (lease : LeaseId) : Prop :=
  ∃ recovery, s.recoveringMachines[machine]? = some recovery ∧ lease ∈ recovery.members

theorem mem_awaited {leases : List LeaseId} {members : OrdMap LeaseId (Option MemberStatus)}
    (h : lease ∈ leases.foldl (fun members lease => members.insertIfNew lease none) members) :
    lease ∈ members ∨ lease ∈ leases := by
  induction leases generalizing members with
  | nil => exact .inl h
  | cons first rest ih =>
    rcases ih h with hmembers | hrest
    · rcases Std.ExtTreeMap.mem_insertIfNew.mp hmembers with hfirst | hold
      · rw [Std.LawfulEqOrd.eq_of_compare hfirst]
        exact .inr List.mem_cons_self
      · exact .inl hold
    · exact .inr (List.mem_cons_of_mem _ hrest)

/-- Only a lease past its preparation comes to be awaited. -/
theorem Stir.awaits (h : Stir licence w u) (hw : Grounded w) (hawaits : Awaits u.service machine lease) :
    Awaits w.service machine lease ∨ SettledIn w.service.cluster lease := by
  obtain ⟨recovery, hrecovery, hmember⟩ := hawaits
  cases h.revised hrecovery with
  | same hold => exact .inl ⟨recovery, hold, hmember⟩
  | begun session => simp [MachineRecovery.new] at hmember
  | await hold leases hleases =>
    rcases mem_awaited hmember with hbefore | hnew
    · exact .inl ⟨_, hold, hbefore⟩
    · obtain ⟨id, record, hrecord, rfl, found, hfound, hstate⟩ := hleases lease hnew
      exact .inr ⟨found, hfound, hw.settled_of_binding hrecord hfound hstate⟩
  | status hold hsaw hsession hawaited =>
    refine .inl ⟨_, hold, ?_⟩
    rcases Std.ExtTreeMap.mem_insert.mp hmember with heq | hbefore
    · rwa [← Std.LawfulEqOrd.eq_of_compare heq]
    · exact hbefore
  | endpoints hold | stray hold | closed hold => exact .inl ⟨_, hold, hmember⟩
  | join hold => exact .inl ⟨_, hold, (Std.ExtTreeMap.mem_erase.mp hmember).2⟩

/-- A joined lease was past its preparation. -/
def JoinSettled (entry : Entry) : Prop :=
  ∀ lease machine status, entry.seen = .joined lease machine status →
    SettledIn entry.service.cluster lease

/-- Only leases past their preparation are awaited and joined. -/
structure Awaited (w : World) : Prop where
  awaits : ∀ machine lease, Awaits w.service machine lease → SettledIn w.service.cluster lease
  joins : ∀ entry ∈ w.trace, JoinSettled entry

theorem Stir.awaited (h : Stir licence w u) (hground : Grounded w) (hw : Awaited w) : Awaited u := by
  have hturns := h.turns hground
  refine ⟨fun machine lease hawaits => ?_, ?_⟩
  · rcases h.awaits hground hawaits with hold | hsettled
    · exact (hw.awaits machine lease hold).turns hturns hground
    · exact hsettled.turns hturns hground
  · intro entry hentry
    rcases h.joins with ⟨extra, htrace, hextra⟩ | ⟨hjoinable, htrace⟩
    · rw [htrace] at hentry
      rcases List.mem_append.mp hentry with hold | hnew
      · exact hw.joins entry hold
      · intro lease machine status hseen
        have hother := hextra entry hnew
        rw [hseen] at hother
        cases hother
    · rw [htrace] at hentry
      rcases List.mem_append.mp hentry with hold | hnew
      · exact hw.joins entry hold
      · rw [List.mem_singleton] at hnew
        subst hnew
        intro lease machine status hseen
        cases hseen
        exact hw.awaits _ _ ⟨_, hjoinable.recovering, OrdMap.mem_iff.mpr ⟨_, hjoinable.member⟩⟩

end Awaited

namespace Process
variable (cluster : Cluster) (state : ServiceState) (durableSink : Bool)

theorem awaited_boot : Awaited (boot cluster state durableSink).world := by
  refine ⟨fun machine lease hawaits => ?_, fun entry hentry => ?_⟩
  · obtain ⟨recovery, hrecovery, -⟩ := hawaits
    simp [boot, NodeService.new] at hrecovery
  · cases hentry

theorem evident_boot : Evident (boot cluster state durableSink).world := by
  refine ⟨fun machine hmachine => ?_, fun machine recovery hrecovery => ?_, .nil⟩
  · simp [boot, NodeService.new] at hmachine
  · simp [boot, NodeService.new] at hrecovery

/-- Everything may come from outside but a session. -/
def ownSessions : Licence := ⟨false, true, true, true, true, true⟩

/-- The operations announce no session by a command of their own. -/
def OwnSessions (operations : List Operation) : Prop :=
  ∀ machine session, .apply (.setAgentSession machine session) ∉ operations

theorem permits_ownSessions {start : Process} {operations : List Operation} (h : OwnSessions operations) :
    Permits ownSessions start operations := by
  refine (Runs.along_iff_forall operations).mpr fun before operation hbefore => ?_
  have hmem : operation ∈ operations := hbefore.subset (by simp)
  cases operation with
  | apply command =>
    refine ⟨fun hhello => ?_, fun _ => rfl⟩
    cases command with
    | setAgentSession machine session => exact absurd hmem (h machine session)
    | _ => cases hhello
  | submit => exact .inl rfl
  | registerServiceGroup | scaleServiceGroup | removeServiceGroup | reconcileServiceGroups | restoreLast
  | queueRestarts => exact rfl
  | _ => trivial

end Process
end Archon.Node
