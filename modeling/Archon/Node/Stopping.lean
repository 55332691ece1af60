import Archon.Node.Evidence

/-! Stop before release. The device of a program is given up only after the proof that
its process is gone from the machine, and the proof is of the session the machine is in. -/
namespace Archon.Node
open Archon.Kernel Fallible Service

/-- The session shows the member gone: it acknowledged the stop, or its recovery found the
process exited. -/
inductive StopProof (trace : List Entry) (lease : LeaseId) (machine : NodeId) (session : UInt64) : Prop where
  | stopped {entry : Entry} (hentry : entry ∈ trace)
      (hseen : entry.seen = .absorbed (.executionStop lease machine session)
        (.ok (.executionStopped lease.asU64)))
  | exited {answer join : Entry} {code : Int32} (hanswer : answer ∈ trace)
      (hseen : answer.seen = .absorbed (.status lease machine session)
        (.ok (.running lease.asU64 false (some code))))
      (hjoin : join ∈ trace) (hjoined : join.seen = .joined lease machine ⟨false, some code⟩)
      (hrecovering : machine ∈ join.service.recoveringMachines)
      (hsession : join.service.cluster.sessions[machine]? = some session)

variable {licence : Licence} {w u : World} {trace : List Entry} {lease : LeaseId} {machine : NodeId}
  {session : UInt64}

theorem StopProof.kept {trace' : List Entry} (h : StopProof trace lease machine session)
    (hgrows : trace <+: trace') : StopProof trace' lease machine session := by
  cases h with
  | stopped hentry hseen => exact .stopped (hgrows.subset hentry) hseen
  | exited hanswer hseen hjoin hjoined hrecovering hsession =>
    exact .exited (hgrows.subset hanswer) hseen (hgrows.subset hjoin) hjoined hrecovering hsession

theorem reply_of_exit {reply : AgentReply} {status : MemberStatus}
    (h : status = (reportedStatus lease reply).getD .unknown) (hrunning : status.running = false)
    (hexit : status.exitCode.isSome) : ∃ code, status = ⟨false, some code⟩ ∧
      reply = .ok (.running lease.asU64 false (some code)) := by
  obtain ⟨running, exitCode⟩ := status
  obtain ⟨code, rfl⟩ := Option.isSome_iff_exists.mp hexit
  dsimp only at hrunning
  subst hrunning
  exact ⟨code, rfl, reply_of_alive h rfl⟩

theorem stopProof_of_shown {member : MemberSession} (hjoined : Throughout JoinShown trace)
    (h : StopShown trace member) : StopProof trace member.lease member.machine member.session := by
  cases h with
  | answered hentry hseen => exact .stopped hentry hseen
  | @exited join status hjoin hseen hrunning hexit hsession =>
    obtain ⟨before, rest, htrace⟩ := List.append_of_mem hjoin
    obtain ⟨recovery, hjoinable, hholds⟩ := hjoined before join rest htrace _ _ _ hseen
    obtain ⟨session, reply, hcurrent, ⟨answer, hanswer, hanswered⟩, hstatus⟩ :=
      hholds.members _ _ hjoinable.member
    rw [hsession] at hcurrent
    cases hcurrent
    obtain ⟨code, rfl, rfl⟩ := reply_of_exit hstatus hrunning hexit
    refine .exited ?_ hanswered hjoin hseen (OrdMap.mem_iff.mpr ⟨recovery, hjoinable.recovering⟩) hsession
    rw [htrace]
    exact List.mem_append_left _ hanswer

theorem Move.stopped {own : Bool} (h : Move own w u) : ∀ member ∈ u.service.executionStopped,
    member ∈ w.service.executionStopped ∨ StopShown w.trace member := by
  have hsame : ∀ {stopped : Finset MemberSession}, stopped = w.service.executionStopped →
      ∀ member ∈ stopped, member ∈ w.service.executionStopped ∨ StopShown w.trace member := by
    rintro stopped rfl member hmember
    exact .inl hmember
  cases h with
  | stop hshown =>
    intro member hmember
    rcases Finset.mem_insert.mp hmember with rfl | hold
    · exact .inr hshown
    · exact .inl hold
  | commit | hello => exact hsame (by rw [service_commit])
  | call =>
    unfold World.call
    split
    · exact hsame rfl
    · exact hsame rfl
  | answerStart lease machine session reply =>
    refine answerStart_cases (w := w) (motive := fun u => ∀ member ∈ u.service.executionStopped,
      member ∈ w.service.executionStopped ∨ StopShown w.trace member) lease machine session reply ?_ ?_ ?_
    · exact fun _ => hsame rfl
    · exact fun _ _ _ _ => hsame (by rw [service_commit]; rfl)
    · exact fun _ _ _ _ => hsame rfl
  | persist | answer | pop | drain | report | recover | join | recovered | refuse | clock | hold
  | rehold | activate | adopt | start | await | status | endpoints | stray | closed | session | inert =>
    exact hsame rfl

theorem Stir.stopped (h : Stir licence w u) : ∀ member ∈ u.service.executionStopped,
    member ∈ w.service.executionStopped ∨ StopShown w.trace member := by
  have hsame : ∀ {stopped : Finset MemberSession}, stopped = w.service.executionStopped →
      ∀ member ∈ stopped, member ∈ w.service.executionStopped ∨ StopShown w.trace member := by
    rintro stopped rfl member hmember
    exact .inl hmember
  cases h with
  | move hmove => exact Move.stopped hmove
  | opening => exact hsame (by rw [service_commit])
  | grant => exact hsame (by rw [service_commit]; rfl)
  | restore =>
    intro member hmember
    cases hmember
  | enqueue | enroll | bind | draw | deny | tally | giveUp | restart | cancel | regroup | enlist =>
    exact hsame rfl

/-- A teardown of an open binding whose program has to be gone goes out under the proof
that it is gone in the machine's session. -/
def StopFirst (before : List Entry) (entry : Entry) : Prop :=
  ∀ machine tag phase call record session, entry.seen = .dispatched machine tag (.binding phase call) →
    phase.isTeardown →
    entry.service.cluster.bindings[(⟨call.binding⟩ : BindingId)]? = some record →
    record.state.isClosed = false → entry.service.leaseIsTerminal record.lease →
    entry.service.hasProgram record.lease → entry.service.cluster.sessions[machine]? = some session →
    ⟨record.lease, machine, session⟩ ∈ entry.service.executionStopped ∧
      StopProof before record.lease machine session

/-- What is held of stops all along. -/
structure Stops (w : World) : Prop where
  evident : Evident w
  proven : ∀ member ∈ w.service.executionStopped,
    StopProof w.trace member.lease member.machine member.session
  first : Throughout StopFirst w.trace

/-- What need not be held of a terminal lease with a program is proven gone. -/
theorem stopped_of_free {s : NodeService} (hfree : mustHold s lease machine = false)
    (hterminal : s.leaseIsTerminal lease) (hprogram : s.hasProgram lease)
    (hsession : s.cluster.sessions[machine]? = some session) :
    (⟨lease, machine, session⟩ : MemberSession) ∈ s.executionStopped := by
  have hknown : machine ∈ s.cluster.sessions := OrdMap.mem_iff.mpr ⟨session, hsession⟩
  simp only [mustHold, hterminal, hprogram, hknown, decide_true, Bool.true_and, Bool.not_eq_false',
    NodeService.memberStopProven, hsession, Option.any_some, decide_eq_true_eq] at hfree
  exact hfree

theorem Stir.stops (hown : licence.sessions = false) (h : Stir licence w u) (hw : Kept w) (hstops : Stops w) :
    Stops u := by
  have hevident := h.evident hown hw.now.grounded hstops.evident
  have hgrows := (h.gathers hown hw.now.grounded hstops.evident.sessioned).grows
  refine ⟨hevident, fun member hmember => ?_, ?_⟩
  · rcases h.stopped member hmember with hold | hshown
    · exact (hstops.proven member hold).kept hgrows
    · exact (stopProof_of_shown hstops.evident.joined hshown).kept hgrows
  · refine h.adds.throughout ?_ ?_ ?_ hstops.first
    · intro before entry hplain machine tag phase call record session hseen
      rw [hseen] at hplain
      cases hplain
    · rintro machine tag request hcalls other found phase call record session hseen hteardown hrecord hopen
        hterminal hprogram hsession
      cases hseen
      cases hcalls with
      | binding hbinding hmachine hfree hcall =>
        rw [hcall] at hrecord
        rw [hbinding] at hrecord
        cases hrecord
        have hstopped := stopped_of_free hfree hterminal hprogram hsession
        exact ⟨hstopped, hstops.proven _ hstopped⟩
      | stray hclosed hcall =>
        rw [hcall] at hrecord
        rw [hclosed record hrecord] at hopen
        cases hopen
    · rintro event - machine tag phase call record session hseen
      cases hseen

namespace Process

/-- In every run, whatever the agents answer and in whatever order, a binding that is open
is released or fenced for a terminal lease with a program only when the machine's current
session has shown the program gone. -/
theorem stop_before_release {cluster : Cluster} {state : ServiceState} (hcluster : cluster.Reachable)
    (hstate : Numbered state) (durableSink : Bool) {operations : List Operation}
    (h : OwnSessions operations) :
    Throughout StopFirst ((boot cluster state durableSink).run operations).world.trace := by
  have hstart : Stops (boot cluster state durableSink).world := by
    refine ⟨evident_boot cluster state durableSink, fun member hmember => ?_, .nil⟩
    cases hmember
  exact (run_stirs (kept_boot hcluster hstate durableSink) hstart
    (fun w u hw hstir hstops => hstir.stops rfl hw hstops) (permits_ownSessions h)).2.first

namespace Sample

/-- The lease of a program is revoked while the program may run, and its machine says that it is gone. -/
def halted : List Operation :=
  [.register twoCpus capable,
   .submit (program 1 [⟨.cpu, qty .count 1, []⟩]) 1,
   .admitOne .default,
   .revoke 1,
   .post (.executionStop 1 1 1) (.ok (.executionStopped 1)),
   .drive []]

/-- The binding that is fenced. -/
def fences : Observation → Option UInt64
  | .dispatched _ _ (.binding .fence call) => some call.binding
  | _ => none

end Sample

/-- The fence is held after the revocation, and sent for the open binding once the program is gone. -/
theorem stopped_program_fenced :
    Throughout StopFirst ((boot .new .new false).run Sample.halted).world.trace ∧
    (⟨1, .fence⟩ : Held) ∈ ((boot .new .new false).run (Sample.halted.take 4)).world.service.heldEffects ∧
    ∃ entry ∈ ((boot .new .new false).run Sample.halted).world.trace, Sample.fences entry.seen = some 1 ∧
      entry.service.hasProgram 1 ∧ entry.service.leaseIsTerminal 1 ∧
      (entry.service.cluster.bindings[(1 : BindingId)]?.any fun record => !record.state.isClosed) := by
  have hown : OwnSessions Sample.halted := fun _ _ h => by simp [Sample.halted] at h
  refine ⟨@stop_before_release .new .new ⟨[], rfl⟩ numbered_new false Sample.halted hown, ?_, ?_⟩
  · decide +kernel
  · decide +kernel

end Process
end Archon.Node
