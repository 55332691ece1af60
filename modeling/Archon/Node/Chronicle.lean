import Archon.Lib.Throughout
import Archon.Node.Stirs

/-! What a move adds to the trace, and the rule that turns what every move
preserves into what every run of the controller preserves. -/
namespace Archon.Node
open Archon.Kernel Fallible

/-- Neither a call nor a reported decision. -/
def Observation.isPlain : Observation → Bool
  | .dispatched _ _ _ | .decided _ => false
  | _ => true

/-- A call adds itself, a report adds its decision, and all else is plain. -/
inductive Adds (w u : World) : Prop where
  | plain (extra : List Entry) (htrace : u.trace = w.trace ++ extra)
      (h : ∀ entry ∈ extra, entry.seen.isPlain)
  | call (machine : NodeId) (tag : Tag) (request : AgentRequest)
      (h : Calls w.service machine tag request) (hu : u = w.call machine tag request)
  | report (event : RecoveryEvent) (h : ∀ lease machine running exitCode,
        event = .memberRecovered lease machine running exitCode →
          Recovers w lease machine running exitCode)
      (htrace : u.trace = w.trace ++ [⟨w.service, .decided event⟩])

open Service
variable {own : Bool} {licence : Licence} {w u : World}

theorem Adds.none (h : u.trace = w.trace) : Adds w u :=
  .plain [] (by rw [h, List.append_nil]) (by simp)

theorem Adds.one {entry : Entry} (h : u.trace = w.trace ++ [entry]) (hplain : entry.seen.isPlain) :
    Adds w u := .plain [entry] h (by simpa using hplain)

theorem trace_commit_plain (command : Command) (effects : List Effect) (cluster : Cluster) :
    ∃ extra, (w.commit command effects cluster).trace = w.trace ++ extra ∧
      ∀ entry ∈ extra, entry.seen.isPlain := by
  refine ⟨_, trace_commit_eq command effects cluster, ?_⟩
  split
  · simp [Observation.isPlain]
  · simp [Observation.isPlain]

theorem commit_adds (command : Command) (effects : List Effect) (cluster : Cluster) :
    Adds w (w.commit command effects cluster) := by
  obtain ⟨extra, htrace, hplain⟩ := trace_commit_plain command effects cluster
  exact .plain extra htrace hplain

theorem Move.adds (h : Move own w u) : Adds w u := by
  cases h with
  | commit => exact commit_adds _ _ _
  | hello => exact commit_adds _ _ _
  | call hcalls => exact .call _ _ _ hcalls rfl
  | report event hevent => exact .report event hevent rfl
  | answerStart lease machine session reply =>
    have hanswer : (w.answer (.executionStart lease machine session) reply).trace =
        w.trace ++ [⟨w.service, .absorbed (.executionStart lease machine session) reply⟩] := rfl
    refine answerStart_cases lease machine session reply (fun _ => .one hanswer rfl) ?_
      fun _ _ _ _ => .one hanswer rfl
    intro reason effects cluster _
    obtain ⟨extra, htrace, hplain⟩ :=
      @trace_commit_plain (w.answer _ reply) (.failLease lease reason) effects cluster
    refine .plain (_ :: extra) (by rw [htrace, hanswer, List.append_assoc]; rfl) ?_
    simpa using ⟨rfl, hplain⟩
  | persist => exact .one rfl rfl
  | answer => exact .one rfl rfl
  | pop => exact .one rfl rfl
  | drain => exact .one rfl rfl
  | recover => exact .one rfl rfl
  | join => exact .one rfl rfl
  | recovered => exact .one rfl rfl
  | refuse | clock | hold | rehold | activate | adopt | start | stop | await | status | endpoints
  | stray | closed | session | inert => exact .none rfl

theorem Stir.adds (h : Stir licence w u) : Adds w u := by
  cases h with
  | move hmove => exact Move.adds hmove
  | opening => exact commit_adds _ _ _
  | grant =>
    obtain ⟨extra, htrace, hplain⟩ := trace_commit_plain (w := w.setState _) _ _ _
    exact .plain extra htrace hplain
  | enqueue | enroll | draw | restart | cancel | enlist => exact .one rfl rfl
  | bind | deny | tally | giveUp | regroup | restore => exact .none rfl

theorem Adds.grows (h : Adds w u) : w.trace <+: u.trace := by
  cases h with
  | plain extra htrace =>
    rw [htrace]
    exact List.prefix_append _ _
  | call machine tag request hcalls hu =>
    rw [hu]
    unfold World.call
    split
    · exact List.prefix_append _ _
    · exact List.prefix_rfl
  | report event hevent htrace =>
    rw [htrace]
    exact List.prefix_append _ _

/-- What is seen when the queue, the restarts or the groups change. -/
def Observation.isIntent : Observation → Bool
  | .accepted _ | .cancelled _ | .restarted _ _ _ | .enlisted _ _ _ => true
  | _ => false

theorem trace_commit_unintended (command : Command) (effects : List Effect) (cluster : Cluster) :
    ∃ extra, (w.commit command effects cluster).trace = w.trace ++ extra ∧
      ∀ entry ∈ extra, entry.seen.isIntent = false := by
  refine ⟨_, trace_commit_eq command effects cluster, ?_⟩
  split
  · simp [Observation.isIntent]
  · simp [Observation.isIntent]

/-- A move shows nothing about what is desired. -/
theorem Move.unintended (h : Move own w u) :
    ∃ extra, u.trace = w.trace ++ extra ∧ ∀ entry ∈ extra, entry.seen.isIntent = false := by
  have hnone : ∀ {t : World}, t.trace = w.trace →
      ∃ extra, t.trace = w.trace ++ extra ∧ ∀ entry ∈ extra, entry.seen.isIntent = false :=
    fun htrace => ⟨[], by rw [htrace, List.append_nil], by simp⟩
  have hone : ∀ {t : World} {entry : Entry}, t.trace = w.trace ++ [entry] → entry.seen.isIntent = false →
      ∃ extra, t.trace = w.trace ++ extra ∧ ∀ entry ∈ extra, entry.seen.isIntent = false :=
    fun htrace hseen => ⟨_, htrace, by simpa using hseen⟩
  cases h with
  | commit => exact trace_commit_unintended _ _ _
  | hello => exact trace_commit_unintended _ _ _
  | call =>
    unfold World.call
    split
    · exact hone rfl rfl
    · exact hnone rfl
  | answerStart lease machine session reply =>
    refine answerStart_cases (w := w) (motive := fun u => ∃ extra, u.trace = w.trace ++ extra ∧
      ∀ entry ∈ extra, entry.seen.isIntent = false) lease machine session reply ?_ ?_ ?_
    · exact fun _ => hone rfl rfl
    · intro reason effects cluster _
      obtain ⟨extra, htrace, hextra⟩ := @trace_commit_unintended
        (w.answer (.executionStart lease machine session) reply) (.failLease lease reason) effects cluster
      refine ⟨_ :: extra, by rw [htrace, World.answer, List.append_cons]; rfl, ?_⟩
      simpa using ⟨rfl, hextra⟩
    · exact fun _ _ _ _ => hone rfl rfl
  | persist | answer | pop | drain | report | recover | join | recovered => exact hone rfl rfl
  | refuse | clock | hold | rehold | activate | adopt | start | stop | await | status | endpoints
  | stray | closed | session | inert => exact hnone rfl

/-! What a step does to the cluster. -/

/-- The cluster is left alone, takes a command or sees a new time. -/
inductive Turns (c c' : Cluster) : Prop where
  | same (h : c' = c)
  | applied (command : Command) (effects : List Effect) (h : Cluster.apply command c = .ok effects c')
  | clock (now : UInt64) (h : c' = c.setNow now)

theorem Turns.of_commit {command : Command} {effects : List Effect} {cluster c : Cluster}
    (h : Cluster.apply command c = .ok effects cluster) :
    Turns c (w.commit command effects cluster).service.cluster :=
  .applied command effects (by rw [service_commit]; exact h)

theorem Move.turns (h : Move own w u) (hw : Grounded w) : Turns w.service.cluster u.service.cluster := by
  cases h with
  | commit _ happly => exact .of_commit happly
  | hello _ happly => exact .of_commit happly
  | refuse happly => exact .same (Cluster.Reachable.refused hw happly)
  | clock now => exact .clock now rfl
  | call =>
    unfold World.call
    split
    · exact .same rfl
    · exact .same rfl
  | answerStart lease machine session reply =>
    refine answerStart_cases (w := w) (motive := fun u => Turns w.service.cluster u.service.cluster)
      lease machine session reply ?_ ?_ ?_
    · exact fun _ => .same rfl
    · exact fun _ _ _ happly => .of_commit happly
    · exact fun _ _ _ happly => .same (Cluster.Reachable.refused hw happly)
  | persist | answer | pop | drain | report | recover | join | recovered | hold | rehold | activate
  | adopt | start | stop | await | status | endpoints | stray | closed | session | inert => exact .same rfl

theorem Stir.turns (h : Stir licence w u) (hw : Grounded w) : Turns w.service.cluster u.service.cluster := by
  cases h with
  | move hmove => exact Move.turns hmove hw
  | opening _ _ happly => exact .of_commit happly
  | grant _ _ _ happly => exact .of_commit happly
  | deny _ _ _ happly => exact .same (Cluster.Reachable.refused hw happly)
  | enqueue | enroll | bind | draw | tally | giveUp | restart | cancel | regroup | enlist | restore =>
    exact .same rfl

/-- A lease past its preparation stays so, and a dead one stays dead. -/
theorem Turns.settled {c c' : Cluster} (h : Turns c c') (hc : c.Reachable) {id : LeaseId} {lease : Lease}
    (hlease : c.leases[id]? = some lease) (hsettled : lease.state.isSettled) :
    ∃ after, c'.leases[id]? = some after ∧ after.state.isSettled ∧
      (lease.state.isLive = false → after.state.isLive = false) := by
  cases h with
  | same h =>
    subst h
    exact ⟨lease, hlease, hsettled, fun hdead => hdead⟩
  | applied command effects happly => exact Cluster.settled_of_apply hc.wellFormed happly hlease hsettled
  | clock now h =>
    subst h
    exact ⟨lease, hlease, hsettled, fun hdead => hdead⟩

/-- Sessions of a machine only go up. -/
theorem Turns.session {c c' : Cluster} (h : Turns c c') {machine : NodeId} {session : UInt64}
    (hsession : c.sessions[machine]? = some session) :
    ∃ next, c'.sessions[machine]? = some next ∧ session ≤ next := by
  cases h with
  | same h =>
    subst h
    exact ⟨session, hsession, UInt64.le_refl _⟩
  | clock now h =>
    subst h
    exact ⟨session, hsession, UInt64.le_refl _⟩
  | applied command effects happly =>
    cases hhello : isHello command with
    | false => exact ⟨session, by rw [Cluster.sessions_of_apply hhello happly, hsession], UInt64.le_refl _⟩
    | true =>
      cases command with
      | setAgentSession host next =>
        obtain ⟨rfl, hnewer⟩ := Cluster.sessions_of_hello happly
        by_cases hhost : host = machine
        · subst hhost
          exact ⟨next, by simp, hnewer session hsession⟩
        · exact ⟨session, by rw [OrdMap.get_insert, if_neg hhost, hsession], UInt64.le_refl _⟩
      | _ => cases hhello

/-- A statement about calls and reports holds of the whole trace if it holds of
each as it is added. -/
theorem Adds.throughout {good : List Entry → Entry → Prop} (h : Adds w u)
    (hplain : ∀ before entry, entry.seen.isPlain → good before entry)
    (hcall : ∀ machine tag request, Calls w.service machine tag request →
      good w.trace ⟨{ w.service with inflight := insert tag w.service.inflight },
        .dispatched machine tag request⟩)
    (hreport : ∀ event, (∀ lease machine running exitCode,
        event = .memberRecovered lease machine running exitCode →
          Recovers w lease machine running exitCode) →
      good w.trace ⟨w.service, .decided event⟩)
    (hw : Throughout good w.trace) : Throughout good u.trace := by
  cases h with
  | plain extra htrace hextra =>
    rw [htrace]
    exact hw.append fun entry hentry before => hplain before entry (hextra entry hentry)
  | call machine tag request hcalls hu =>
    rw [hu]
    unfold World.call
    split
    · exact hw.concat (hcall machine tag request hcalls)
    · exact hw
  | report event hevent htrace =>
    rw [htrace]
    exact hw.concat (hreport event hevent)

namespace Process

/-- Each operation is licensed where it is taken up. -/
def Permits (licence : Licence) (start : Process) (operations : List Operation) : Prop :=
  Runs.Along take (fun p operation => operation.Permitted licence p.world) start operations

/-- What every move preserves, every run ends with. -/
theorem run_stirs {licence : Licence} {inv : World → Prop} {start : Process} (hkept : Kept start.world)
    (hstart : inv start.world) (hmove : ∀ w u, Kept w → Stir licence w u → inv w → inv u)
    {operations : List Operation} (h : Permits licence start operations) :
    Kept (start.run operations).world ∧ inv (start.run operations).world := by
  refine @Runs.invariant_along _ _ take start _ (fun p => Kept p.world ∧ inv p.world) ⟨hkept, hstart⟩
    (fun before operation _ hpermitted hbefore => ?_) operations h
  rw [Runs.run_concat]
  have hkeeps : ∀ t u, Stir licence t u → Kept t ∧ inv t → Kept u ∧ inv u := by
    rintro t u hstir ⟨ht, hinv⟩
    exact ⟨hstir.kept ht, hmove t u ht hstir hinv⟩
  rcases take_world (Runs.run take start before) operation with heq | heq
  · rw [heq]
    exact hbefore
  · rw [heq]
    exact (Operation.stirs hbefore.1 hpermitted).preserves hkeeps hbefore

/-- Anything may come from outside. -/
def unrestricted : Licence := ⟨true, true, true, true, true, true⟩

theorem permitted_unrestricted (operation : Operation) : operation.Permitted unrestricted w := by
  cases operation with
  | apply => exact ⟨fun _ => rfl, fun _ => rfl⟩
  | submit => exact .inl rfl
  | registerServiceGroup | scaleServiceGroup | removeServiceGroup | reconcileServiceGroups
  | restoreLast | queueRestarts => exact rfl
  | _ => trivial

theorem permits_unrestricted {start : Process} (operations : List Operation) :
    Permits unrestricted start operations :=
  (Runs.along_iff_forall operations).mpr fun _ operation _ => permitted_unrestricted operation

/-- Everything but going back to what was saved. -/
def unrestored : Licence := ⟨true, true, true, true, false, true⟩

theorem permitted_unrestored {operation : Operation} (h : operation ≠ .restoreLast) :
    operation.Permitted unrestored w := by
  cases operation with
  | restoreLast => exact absurd rfl h
  | submit => exact .inl rfl
  | apply => exact ⟨fun _ => rfl, fun _ => rfl⟩
  | registerServiceGroup | scaleServiceGroup | removeServiceGroup | reconcileServiceGroups
  | queueRestarts => exact rfl
  | _ => trivial

theorem kept_boot {cluster : Cluster} {state : ServiceState} (hcluster : cluster.Reachable)
    (hstate : Numbered state) (durableSink : Bool) : Kept (boot cluster state durableSink).world where
  now := ⟨hcluster, .inr hstate⟩
  saved entry hentry := by cases hentry

theorem numbered_new : Numbered .new :=
  ⟨by simp [ServiceState.new], by simp [ServiceState.new], by simp [ServiceState.new]⟩

theorem kept_new (durableSink : Bool) : Kept (new durableSink).world :=
  kept_boot ⟨[], rfl⟩ numbered_new durableSink

/-! One machine with two processors, and a program for it. -/
namespace Sample

def twoCpus : MachineDescription := ⟨"a", "a", 2, 4, [], []⟩

def capable : ExecutionCapabilities :=
  ⟨⟨true, true, true, true, true, true⟩, ⟨true, true, true, true, true, true⟩⟩

def program (id : RequestId) (needs : List Need) : WorkloadSpec :=
  ⟨⟨id, .service, needs, [], [], [], 100, 0, false⟩, ⟨["run"], none, [], [], 0⟩, false⟩

end Sample

end Process
end Archon.Node
