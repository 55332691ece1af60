import Archon.Node.Evidence

/-! The start barrier. A member is started once in a session, and only when every binding
of its lease is proven active at its provider. -/
namespace Archon.Node
open Archon.Kernel Fallible Service

/-- The member that an agent is asked to start. -/
def Observation.starts : Observation → Option MemberSession
  | .dispatched machine _ (.startExecution lease session _ _ _ _ _ _ _ _) =>
    some ⟨⟨lease⟩, machine, session⟩
  | _ => none

/-- A generation is active at its provider: its acknowledgement was accepted, or a recovery
has proven it. -/
inductive ActivationShown (trace : List Entry) (generation : Generation) : Prop where
  | acknowledged (h : Acknowledged trace generation)
  | recovered {entry : Entry} (hentry : entry ∈ trace) (h : ProvenBy entry generation)

/-- What holds when a member is started. -/
structure MayStart (before : List Entry) (s : NodeService) (member : MemberSession) : Prop where
  first : ∀ earlier ∈ before, earlier.seen.starts ≠ some member
  active : s.leaseIsActive member.lease
  program : s.hasProgram member.lease
  recovered : member.machine ∉ s.recoveringMachines
  current : s.cluster.sessions[member.machine]? = some member.session
  bound : s.bindingsFor member.lease ≠ []
  proven : ∀ (id : BindingId) (record : Binding), s.cluster.bindings[id]? = some record →
    record.lease = member.lease → record.state = .active ∧
      ⟨id, record.agentSession, record.fence⟩ ∈ s.providerActivations ∧
      ActivationShown before ⟨id, record.agentSession, record.fence⟩

def StartBarrier (before : List Entry) (entry : Entry) : Prop :=
  ∀ member, entry.seen.starts = some member → MayStart before entry.service member

variable {own : Bool} {licence : Licence} {w u : World} {trace : List Entry} {member : MemberSession}
  {generation : Generation} {lease : LeaseId} {machine : NodeId}

theorem Acknowledged.kept {trace' : List Entry} (h : Acknowledged trace generation)
    (hgrows : trace <+: trace') : Acknowledged trace' generation := by
  obtain ⟨before, taken, accepted, rest, phase, got, rfl, htaken, haccepted⟩ := h
  obtain ⟨more, rfl⟩ := hgrows
  exact ⟨before, taken, accepted, rest ++ more, phase, got, by simp, htaken, haccepted⟩

theorem ActivationShown.kept {trace' : List Entry} (h : ActivationShown trace generation)
    (hgrows : trace <+: trace') : ActivationShown trace' generation := by
  cases h with
  | acknowledged h => exact .acknowledged (h.kept hgrows)
  | recovered hentry h => exact .recovered (hgrows.subset hentry) h

/-! Provider activations. -/

theorem Move.activated (h : Move own w u) (hjoins : ∀ entry ∈ w.trace, JoinSettled entry) :
    ∀ generation ∈ u.service.providerActivations,
      generation ∈ w.service.providerActivations ∨ ActivationShown w.trace generation := by
  have hsame : ∀ {activations : Finset Generation}, activations = w.service.providerActivations →
      ∀ generation ∈ activations, generation ∈ w.service.providerActivations ∨
        ActivationShown w.trace generation := by
    rintro activations rfl generation hgeneration
    exact .inl hgeneration
  cases h with
  | activate hacknowledged =>
    intro generation hgeneration
    rcases Finset.mem_insert.mp hgeneration with rfl | hold
    · exact .inr (.acknowledged hacknowledged)
    · exact .inl hold
  | adopt generations hproven =>
    intro generation hgeneration
    rcases Finset.mem_union.mp hgeneration with hnew | hold
    · obtain ⟨entry, hentry, lease, machine, status, hseen, hterminal, hactive⟩ :=
        hproven generation (List.mem_toFinset.mp hnew)
      have hsettled := hjoins entry hentry lease machine status hseen
      exact .inr (.recovered hentry (hactive (active_of_settled hsettled hterminal)))
    · exact .inl hold
  | commit | hello => exact hsame (by rw [service_commit])
  | call =>
    unfold World.call
    split
    · exact hsame rfl
    · exact hsame rfl
  | answerStart lease machine session reply =>
    refine answerStart_cases (w := w) (motive := fun u => ∀ generation ∈ u.service.providerActivations,
      generation ∈ w.service.providerActivations ∨ ActivationShown w.trace generation)
      lease machine session reply ?_ ?_ ?_
    · exact fun _ => hsame rfl
    · exact fun _ _ _ _ => hsame (by rw [service_commit]; rfl)
    · exact fun _ _ _ _ => hsame rfl
  | persist | answer | pop | drain | report | recover | join | recovered | refuse | clock | hold
  | rehold | start | stop | await | status | endpoints | stray | closed | session | inert =>
    exact hsame rfl

theorem Stir.activated (h : Stir licence w u) (hjoins : ∀ entry ∈ w.trace, JoinSettled entry) :
    ∀ generation ∈ u.service.providerActivations,
      generation ∈ w.service.providerActivations ∨ ActivationShown w.trace generation := by
  have hsame : ∀ {activations : Finset Generation}, activations = w.service.providerActivations →
      ∀ generation ∈ activations, generation ∈ w.service.providerActivations ∨
        ActivationShown w.trace generation := by
    rintro activations rfl generation hgeneration
    exact .inl hgeneration
  cases h with
  | move hmove => exact Move.activated hmove hjoins
  | opening => exact hsame (by rw [service_commit])
  | grant => exact hsame (by rw [service_commit]; rfl)
  | restore =>
    intro generation hgeneration
    cases hgeneration
  | enqueue | enroll | bind | draw | deny | tally | giveUp | restart | cancel | regroup | enlist =>
    exact hsame rfl

/-! Starts. -/

/-- Nothing can start the member again: its start is on its way, was answered, or no longer
counts. -/
inductive Spent (s : NodeService) (member : MemberSession) : Prop where
  | underway (h : .executionStart member.lease member.machine member.session ∈ s.inflight)
  | started (h : member ∈ s.executionStarted)
  | ended (h : s.leaseIsActive member.lease = false)
  | outdated {session : UInt64} (hsession : s.cluster.sessions[member.machine]? = some session)
      (h : member.session < session)

/-- A member that was started. -/
structure Begun (s : NodeService) (member : MemberSession) : Prop where
  settled : SettledIn s.cluster member.lease
  session : ∃ session, s.cluster.sessions[member.machine]? = some session ∧ member.session ≤ session
  spent : Spent s member

theorem mem_answered {tag other : Tag} {reply : AgentReply} (hne : other ≠ tag)
    (h : other ∈ w.service.inflight) : other ∈ (w.answer tag reply).service.inflight :=
  Finset.mem_erase.mpr ⟨hne, h⟩

theorem Spent.answered {reply : AgentReply} (hw : Grounded w) (hbegun : Begun w.service member) :
    Spent (after (absorbReply (.executionStart member.lease member.machine member.session) reply) w).service
      member := by
  rcases after_answerStart (w := w) member.lease member.machine member.session reply with
    ⟨heq, hlate⟩ | heq | ⟨reason, hactive, heq⟩
  · rw [heq]
    cases hinactive : w.service.leaseIsActive member.lease with
    | false => exact .ended hinactive
    | true =>
      obtain ⟨session, hsession, hle⟩ := hbegun.session
      refine .outdated hsession (UInt64.lt_of_le_of_ne hle fun hsame => hlate ⟨?_, hinactive⟩)
      rw [hsame]
      exact hsession
  · rw [heq]
    exact .started (Finset.mem_insert_self _ _)
  · rw [heq]
    obtain ⟨record, hrecord, -⟩ := leaseIsActive_iff.mp hactive
    obtain ⟨effects, cluster, happly⟩ := Cluster.failLease_ok hrecord reason
    rw [after_of_ok (@commit_run_ok (w.answer _ reply) _ _ _ happly)]
    obtain ⟨after, hafter, hdead⟩ := Cluster.failLease_dead hw.wellFormed hrecord happly
    refine .ended ?_
    rw [service_commit, NodeService.leaseIsActive]
    dsimp only
    rw [hafter, Option.any_some, decide_eq_false_iff_not]
    intro hstill
    rw [hstill] at hdead
    cases hdead

/-- A start stays on its way until it is answered. -/
theorem Move.underway (h : Move own w u) (hw : Grounded w) (hbegun : Begun w.service member)
    (hunderway : .executionStart member.lease member.machine member.session ∈ w.service.inflight) :
    Spent u.service member := by
  have hsame : ∀ {s : NodeService}, s.inflight = w.service.inflight → Spent s member := by
    rintro s heq
    exact .underway (by rwa [heq])
  cases h with
  | commit | hello => exact hsame (by rw [service_commit])
  | @call machine tag request hcalls =>
    have hinserted := Finset.mem_insert_of_mem hunderway (b := tag)
    unfold World.call
    split
    · exact .underway hinserted
    · refine .underway (Finset.mem_erase.mpr ⟨?_, hinserted⟩)
      cases hcalls with
      | start _ _ _ _ _ _ hidle =>
        rintro heq
        rw [heq] at hunderway
        exact hidle hunderway
      | stop | status | enumerate | probe | binding | stray => simp
  | @answer tag reply htag =>
    refine .underway (mem_answered ?_ hunderway)
    rintro rfl
    cases htag
  | answerStart lease machine session reply =>
    by_cases hown : Tag.executionStart member.lease member.machine member.session =
        .executionStart lease machine session
    · cases hown
      exact .answered hw hbegun
    · have hstill := @mem_answered w _ _ reply hown hunderway
      refine answerStart_cases (w := w) (motive := fun u => Spent u.service member)
        lease machine session reply ?_ ?_ ?_
      · exact fun _ => .underway hstill
      · exact fun _ _ _ _ => .underway (by rw [service_commit]; exact hstill)
      · exact fun _ _ _ _ => .underway hstill
  | refuse | clock | persist | pop | hold | drain | rehold | activate | adopt | start | stop | report
  | recover | await | status | endpoints | stray | closed | join | recovered | session | inert =>
    exact hsame rfl

theorem Move.started (h : Move own w u) (hstarted : member ∈ w.service.executionStarted) :
    member ∈ u.service.executionStarted := by
  cases h with
  | commit | hello =>
    rw [service_commit]
    exact hstarted
  | call =>
    unfold World.call
    split
    · exact hstarted
    · exact hstarted
  | answerStart lease machine session reply =>
    rcases after_answerStart (w := w) lease machine session reply with
      ⟨heq, -⟩ | heq | ⟨reason, hactive, heq⟩
    · rw [heq]
      exact hstarted
    · rw [heq]
      exact Finset.mem_insert_of_mem hstarted
    · rw [heq]
      obtain ⟨record, hrecord, -⟩ := leaseIsActive_iff.mp hactive
      obtain ⟨effects, cluster, happly⟩ := Cluster.failLease_ok hrecord reason
      rw [after_of_ok (@commit_run_ok (w.answer _ reply) _ _ _ happly), service_commit]
      exact hstarted
  | start member => exact Finset.mem_insert_of_mem hstarted
  | refuse | clock | persist | answer | pop | hold | drain | rehold | activate | adopt | stop | report
  | recover | await | status | endpoints | stray | closed | join | recovered | session | inert =>
    exact hstarted

theorem Stir.begun (hrestores : licence.restores = false) (h : Stir licence w u) (hw : Grounded w)
    (hbegun : Begun w.service member) : Begun u.service member := by
  have hturns := h.turns hw
  have hsessions : ∀ {session : UInt64}, w.service.cluster.sessions[member.machine]? = some session →
      ∃ next, u.service.cluster.sessions[member.machine]? = some next ∧ session ≤ next :=
    hturns.session
  obtain ⟨session, hsession, hle⟩ := hbegun.session
  obtain ⟨next, hnext, hlater⟩ := hsessions hsession
  refine ⟨hbegun.settled.turns hturns hw, ⟨next, hnext, UInt64.le_trans hle hlater⟩, ?_⟩
  cases hbegun.spent with
  | ended hended => exact .ended (inactive_kept hbegun.settled hended hturns hw)
  | outdated hcurrent hlt =>
    obtain ⟨newer, hnewer, hge⟩ := hsessions hcurrent
    exact .outdated hnewer (UInt64.lt_of_lt_of_le hlt hge)
  | underway hunderway =>
    cases h with
    | move hmove => exact Move.underway hmove hw hbegun hunderway
    | opening =>
      rw [service_commit]
      exact .underway hunderway
    | grant =>
      rw [service_commit]
      exact .underway hunderway
    | restore hlicensed =>
      rw [hrestores] at hlicensed
      cases hlicensed
    | enqueue | enroll | bind | draw | deny | tally | giveUp | restart | cancel | regroup | enlist =>
      exact .underway hunderway
  | started hstarted =>
    cases h with
    | move hmove => exact .started (Move.started hmove hstarted)
    | opening =>
      rw [service_commit]
      exact .started hstarted
    | grant =>
      rw [service_commit]
      exact .started hstarted
    | restore hlicensed =>
      rw [hrestores] at hlicensed
      cases hlicensed
    | enqueue | enroll | bind | draw | deny | tally | giveUp | restart | cancel | regroup | enlist =>
      exact .started hstarted

/-! The barrier. -/

theorem Observation.starts_plain {seen : Observation} (h : seen.isPlain) : seen.starts = none := by
  cases seen with
  | dispatched => cases h
  | _ => rfl

/-- What is held of starts all along. -/
structure Starts (w : World) : Prop where
  awaited : Awaited w
  activated : ∀ generation ∈ w.service.providerActivations, ActivationShown w.trace generation
  begun : ∀ entry ∈ w.trace, ∀ member, entry.seen.starts = some member → Begun w.service member
  barrier : Throughout StartBarrier w.trace

theorem Spent.refused {session : UInt64} (hactive : w.service.leaseIsActive lease)
    (hsession : w.service.cluster.sessions[machine]? = some session)
    (hfresh : ⟨lease, machine, session⟩ ∉ w.service.executionStarted)
    (hidle : .executionStart lease machine session ∉ w.service.inflight) :
    ¬Spent w.service ⟨lease, machine, session⟩ := by
  rintro (hunderway | hstarted | hended | ⟨hcurrent, hlt⟩)
  · exact hidle hunderway
  · exact hfresh hstarted
  · rw [hactive] at hended
    cases hended
  · rw [hsession] at hcurrent
    cases hcurrent
    exact UInt64.lt_irrefl _ hlt

/-- What a call that starts a member has checked. -/
theorem mayStart_of_calls {tag : Tag} {request : AgentRequest} (hw : Grounded w) (hstarts : Starts w)
    (hcalls : Calls w.service machine tag request)
    (hmember : (Observation.dispatched machine tag request).starts = some member) :
    MayStart w.trace { w.service with inflight := insert tag w.service.inflight } member := by
  cases hcalls with
  | stop | status | enumerate | probe | binding | stray => cases hmember
  | start hactive hprogram hproven hrecovered hsession hfresh hidle =>
    cases hmember
    unfold allProviderActive at hproven
    simp only [Bool.and_eq_true, decide_eq_true_eq, List.all_eq_true] at hproven
    refine ⟨fun earlier hearlier hseen => ?_, hactive, hprogram, hrecovered, hsession, hproven.1, ?_⟩
    · exact Spent.refused hactive hsession hfresh hidle (hstarts.begun earlier hearlier _ hseen).spent
    · intro id record hrecord hlease
      have hbinding := hproven.2 id ((mem_bindingsFor hw).mpr ⟨record, hrecord, hlease⟩)
      rw [show w.service.cluster.bindings[id]? = some record from hrecord, Option.any_some,
        Bool.and_eq_true, decide_eq_true_eq, decide_eq_true_eq] at hbinding
      exact ⟨hbinding.1, hbinding.2, hstarts.activated _ hbinding.2⟩

theorem begun_of_calls {tag : Tag} {request : AgentRequest} (hcalls : Calls w.service machine tag request)
    (hmember : (Observation.dispatched machine tag request).starts = some member) :
    Begun { w.service with inflight := insert tag w.service.inflight } member := by
  cases hcalls with
  | stop | status | enumerate | probe | binding | stray => cases hmember
  | start hactive _ _ _ hsession =>
    cases hmember
    exact ⟨@settledIn_of_active _ w.service hactive, ⟨_, hsession, UInt64.le_refl _⟩,
      .underway (Finset.mem_insert_self _ _)⟩

theorem Adds.begun (h : Adds w u)
    (hw : ∀ entry ∈ w.trace, ∀ member, entry.seen.starts = some member → Begun u.service member) :
    ∀ entry ∈ u.trace, ∀ member, entry.seen.starts = some member → Begun u.service member := by
  intro entry hentry member hmember
  cases h with
  | plain extra htrace hplain =>
    rw [htrace] at hentry
    rcases List.mem_append.mp hentry with hold | hnew
    · exact hw entry hold member hmember
    · rw [Observation.starts_plain (hplain entry hnew)] at hmember
      cases hmember
  | call machine tag request hcalls hu =>
    subst hu
    unfold World.call at hentry hw ⊢
    split at hentry
    · rename_i hagent
      rw [if_pos hagent] at hw ⊢
      rcases List.mem_append.mp hentry with hold | hnew
      · exact hw entry hold member hmember
      · rw [List.mem_singleton] at hnew
        subst hnew
        exact begun_of_calls hcalls hmember
    · rename_i hagent
      rw [if_neg hagent] at hw ⊢
      exact hw entry hentry member hmember
  | report event hevent htrace =>
    rw [htrace] at hentry
    rcases List.mem_append.mp hentry with hold | hnew
    · exact hw entry hold member hmember
    · rw [List.mem_singleton] at hnew
      subst hnew
      cases hmember

theorem Stir.starts (hrestores : licence.restores = false) (h : Stir licence w u) (hw : Kept w)
    (hstarts : Starts w) : Starts u := by
  have hground := hw.now.grounded
  have hgrows := h.adds.grows
  refine ⟨h.awaited hground hstarts.awaited, fun generation hgeneration => ?_,
    fun entry hentry member hmember => ?_, ?_⟩
  · rcases h.activated hstarts.awaited.joins generation hgeneration with hold | hshown
    · exact (hstarts.activated generation hold).kept hgrows
    · exact hshown.kept hgrows
  · exact h.adds.begun (fun old hold other hother =>
      h.begun hrestores hground (hstarts.begun old hold other hother)) entry hentry member hmember
  · refine h.adds.throughout ?_ ?_ ?_ hstarts.barrier
    · intro before entry hplain member hmember
      rw [Observation.starts_plain hplain] at hmember
      cases hmember
    · intro machine tag request hcalls member hmember
      exact mayStart_of_calls hground hstarts hcalls hmember
    · rintro event - member hmember
      cases hmember

namespace Process

theorem permits_unrestored {start : Process} {operations : List Operation}
    (h : .restoreLast ∉ operations) : Permits unrestored start operations := by
  refine (Runs.along_iff_forall operations).mpr fun before operation hbefore => ?_
  have hmem : operation ∈ operations := hbefore.subset (by simp)
  exact permitted_unrestored fun heq => h (heq ▸ hmem)

/-- In every run without a restore, whatever the agents answer and in whatever order, a member
is started at most once in a session, and only as a member of an active lease whose bindings
are all proven active, on a machine that is not recovering, in its current session. -/
theorem start_barrier {cluster : Cluster} {state : ServiceState} (hcluster : cluster.Reachable)
    (hstate : Numbered state) (durableSink : Bool) {operations : List Operation}
    (h : .restoreLast ∉ operations) :
    Throughout StartBarrier ((boot cluster state durableSink).run operations).world.trace := by
  have hstart : Starts (boot cluster state durableSink).world := by
    refine ⟨awaited_boot cluster state durableSink, fun generation hgeneration => ?_,
      fun entry hentry => ?_, .nil⟩
    · cases hgeneration
    · cases hentry
  exact (run_stirs (kept_boot hcluster hstate durableSink) hstart
    (fun w u hw hstir hstarts => hstir.starts rfl hw hstarts) (permits_unrestored h)).2.barrier

namespace Sample

/-- Both bindings of a program are prepared and activated before it is started. -/
def started : List Operation :=
  [.register twoCpus capable,
   .submit (program 1 [⟨.cpu, qty .count 2, []⟩]) 1,
   .admitOne .default,
   .post (.binding 1 1 1 .prepare) (.ok (.prepared 1 1)),
   .drive [],
   .post (.binding 2 1 1 .prepare) (.ok (.prepared 2 2)),
   .drive [],
   .post (.binding 1 1 1 .activate) (.ok (.activated 1)),
   .drive [],
   .post (.binding 2 1 1 .activate) (.ok (.activated 2)),
   .drive []]

end Sample

/-- The program is started under both activations. -/
theorem program_started :
    Throughout StartBarrier ((boot .new .new false).run Sample.started).world.trace ∧
    ∃ entry ∈ ((boot .new .new false).run Sample.started).world.trace,
      entry.seen.starts = some ⟨1, 1, 1⟩ ∧ entry.service.bindingsFor 1 = [1, 2] := by
  refine ⟨@start_barrier .new .new ⟨[], rfl⟩ numbered_new false Sample.started (by simp [Sample.started]), ?_⟩
  decide +kernel

end Process
end Archon.Node
