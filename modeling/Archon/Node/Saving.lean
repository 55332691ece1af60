import Archon.Lib.Failing
import Archon.Node.Chronicle

/-! What the sink was given last. Between operations it is the state that the controller
has, but for counters and for what admission moved, so going back to it changes nothing of
the restarts and the groups. -/
namespace Archon.Node
open Archon.Kernel Fallible Service

variable {own : Bool} {licence : Licence} {w u : World} {s t : ServiceState} {α β : Type}

/-! A controller without a sink gives it nothing. -/

theorem lastPersisted_append (before extra : List Entry) :
    lastPersisted (before ++ extra) = (lastPersisted extra).or (lastPersisted before) := by
  unfold lastPersisted
  rw [List.findRev?_eq_find?_reverse, List.findRev?_eq_find?_reverse, List.findRev?_eq_find?_reverse,
    List.reverse_append, List.find?_append, Option.map_or]

theorem lastPersisted_seen {entry : Entry} (h : u.trace = w.trace ++ [entry])
    (hseen : ∀ command, entry.seen ≠ .persisted command) : lastPersisted u.trace = lastPersisted w.trace := by
  have hnone : lastPersisted [entry] = none := by
    refine Option.eq_none_iff_forall_ne_some.mpr fun state hlast => ?_
    obtain ⟨found, hfound, command, hsaw, -⟩ := lastPersisted_some hlast
    rw [List.mem_singleton.mp hfound] at hsaw
    exact hseen command hsaw
  rw [h, lastPersisted_append, hnone, Option.none_or]

structure Sunk (durableSink : Bool) (w : World) : Prop where
  sink : w.service.durableSink = durableSink
  unsunk : durableSink = false → lastPersisted w.trace = none

variable {durableSink : Bool}

theorem Sunk.same (h : Sunk durableSink w) (hsink : u.service.durableSink = w.service.durableSink)
    (hlast : lastPersisted u.trace = lastPersisted w.trace) : Sunk durableSink u :=
  ⟨hsink.trans h.sink, fun hnone => hlast.trans (h.unsunk hnone)⟩

theorem Sunk.seen {entry : Entry} (h : Sunk durableSink w)
    (hsink : u.service.durableSink = w.service.durableSink) (htrace : u.trace = w.trace ++ [entry])
    (hseen : ∀ command, entry.seen ≠ .persisted command) : Sunk durableSink u :=
  h.same hsink (lastPersisted_seen htrace hseen)

theorem Sunk.commit (h : Sunk durableSink w) (command : Command) (effects : List Effect)
    (cluster : Cluster) : Sunk durableSink (w.commit command effects cluster) := by
  refine ⟨by rw [service_commit]; exact h.sink, fun hnone => ?_⟩
  have hsink := h.sink
  rw [hnone] at hsink
  rw [trace_commit_eq, hsink, if_neg Bool.false_ne_true, lastPersisted_append, h.unsunk hnone]
  rfl

theorem Move.sunk (h : Move own w u) (hw : Sunk durableSink w) : Sunk durableSink u := by
  cases h with
  | commit => exact hw.commit _ _ _
  | hello => exact hw.commit _ _ _
  | persist hsink =>
    refine ⟨hw.sink, fun hnone => ?_⟩
    rw [hw.sink, hnone] at hsink
    cases hsink
  | call =>
    unfold World.call
    split
    · exact hw.seen rfl rfl fun _ heq => by cases heq
    · exact hw.same rfl rfl
  | answerStart lease machine session reply =>
    have hanswer : Sunk durableSink (w.answer (.executionStart lease machine session) reply) :=
      hw.seen rfl rfl fun _ heq => by cases heq
    refine answerStart_cases (w := w) (motive := Sunk durableSink) lease machine session reply ?_ ?_ ?_
    · exact fun _ => hanswer.same rfl rfl
    · exact fun _ _ _ _ => hanswer.commit _ _ _
    · exact fun _ _ _ _ => hanswer.same rfl rfl
  | answer | pop | drain | report | recover | join | recovered =>
    exact hw.seen rfl rfl fun _ heq => by cases heq
  | refuse | clock | hold | rehold | activate | adopt | start | stop | await | status | endpoints
  | stray | closed | session | inert => exact hw.same rfl rfl

theorem Stir.sunk (h : Stir licence w u) (hw : Sunk durableSink w) : Sunk durableSink u := by
  cases h with
  | move hmove => exact Move.sunk hmove hw
  | opening => exact hw.commit _ _ _
  | grant =>
    refine Sunk.commit (w := w.setState _) ?_ _ _ _
    exact hw.same rfl rfl
  | enqueue | enroll | draw | restart | cancel | enlist => exact hw.seen rfl rfl fun _ heq => by cases heq
  | bind | deny | tally | giveUp | regroup | restore => exact hw.same rfl rfl

/-! States that differ in counters and in what admission moves. -/

def Alike (s t : ServiceState) : Prop :=
  ∃ requests queue queuedWorkloads nextLease nextSession nextBinding, t = { s with
    requests, queue, queuedWorkloads, nextLease, nextSession, nextBinding }

theorem Alike.refl (s : ServiceState) : Alike s s := ⟨_, _, _, _, _, _, rfl⟩

theorem Alike.trans {r : ServiceState} (h : Alike r s) (h' : Alike s t) : Alike r t := by
  obtain ⟨_, _, _, _, _, _, rfl⟩ := h
  obtain ⟨_, _, _, _, _, _, rfl⟩ := h'
  exact ⟨_, _, _, _, _, _, rfl⟩

theorem Drift.alike (h : Drift licence w u) : Alike w.service.state u.service.state := by
  cases h with
  | move hmove =>
    obtain ⟨next, hstate⟩ := Move.keeps_state hmove
    rw [hstate]
    exact ⟨_, _, _, _, _, _, rfl⟩
  | bind => exact ⟨_, _, _, _, _, _, rfl⟩
  | draw => exact .refl _
  | opening =>
    rw [service_commit]
    exact .refl _
  | grant =>
    rw [service_commit]
    exact ⟨_, _, _, _, _, _, rfl⟩
  | deny => exact ⟨_, _, _, _, _, _, rfl⟩

/-- What the sink was given last is like the state of the controller. -/
def Synced (w : World) : Prop := ∀ saved, lastPersisted w.trace = some saved → Alike saved w.service.state

theorem Drift.synced (h : Drift licence w u) (hw : Synced w) : Synced u := by
  obtain ⟨extra, htrace, hextra⟩ := h.stir.saves
  intro saved hlast
  rw [htrace, lastPersisted_append] at hlast
  cases hnew : lastPersisted extra with
  | none =>
    rw [hnew, Option.none_or] at hlast
    exact (hw saved hlast).trans h.alike
  | some state =>
    rw [hnew, Option.some_or] at hlast
    cases hlast
    obtain ⟨entry, hentry, command, hseen, rfl⟩ := lastPersisted_some hnew
    rw [(hextra entry hentry command hseen).1]
    exact .refl _

/-! An operation that takes something in gives it to the sink at its end, unless it ends the
process; if it is refused it has written nothing. -/

/-- The program ends with the sink given what it leaves. -/
def Gives (program : ServiceM α) : Prop :=
  ∀ w a u, program w = .ok a u → u.service.durableSink → lastPersisted u.trace = some u.service.state

/-- The program writes nothing if it is refused. -/
def Refusing (program : ServiceM α) : Prop := ∀ w e u, program w = .error (.err e) u → u = w

theorem gives_persist : Gives (persist none) := by
  intro w a u h hsink
  rw [persist_run] at h
  cases h
  split
  · rw [World.observe, lastPersisted_append]
    rfl
  · rename_i hnone
    rw [if_neg hnone] at hsink
    exact absurd hsink hnone

theorem Gives.bind (program : ServiceM α) {next : α → ServiceM β} (h : ∀ a, Gives (next a)) :
    Gives (program >>= next) := by
  intro w b u hok
  obtain ⟨a, v, -, hnext⟩ := bind_ok.mp hok
  exact h a v b u hnext

theorem Gives.result {program : ServiceM α} (h : Gives program) (value : α → β) :
    Gives (program >>= fun a => pure (value a)) := by
  intro w b u hok
  obtain ⟨a, v, hrun, hpure⟩ := bind_ok.mp hok
  obtain ⟨-, rfl⟩ := pure_ok.mp hpure
  exact h w a v hrun

theorem gives_throw (e : Fault) : Gives (throw e : ServiceM α) := by
  intro w a u h
  cases h

theorem Gives.ite {condition : Prop} [Decidable condition] {yes no : ServiceM α} (hyes : Gives yes)
    (hno : Gives no) : Gives (if condition then yes else no) := by
  split
  · exact hyes
  · exact hno

theorem refusing_of_panics {program : ServiceM α} (h : Failing (· = Fault.panic) program) :
    Refusing program := by
  intro w e u herr
  cases h w _ u herr

theorem refusing_throw (e : Fault) : Refusing (throw e : ServiceM α) := by
  intro w error u h
  cases h
  rfl

/-- A program that writes nothing may be refused before the rest. -/
theorem Refusing.after_reading {program : ServiceM α} {next : α → ServiceM β}
    (hstill : ∀ w, after program w = w) (hnext : ∀ a, Refusing (next a)) :
    Refusing (program >>= next) := by
  intro w e u herr
  have hw := hstill w
  cases hrun : program w with
  | ok a v =>
    rw [after_of_ok hrun] at hw
    simp only [Bind.bind, EStateM.bind, hrun] at herr
    rw [← hw]
    exact hnext a v e u herr
  | error fault v =>
    rw [after_of_error hrun] at hw
    simp only [Bind.bind, EStateM.bind, hrun] at herr
    cases herr
    exact hw

theorem Refusing.result {program : ServiceM α} (h : Refusing program) (value : α → β) :
    Refusing (program >>= fun a => pure (value a)) := by
  intro w e u herr
  cases hrun : program w with
  | ok a v => simp only [Bind.bind, EStateM.bind, hrun] at herr; cases herr
  | error fault v =>
    simp only [Bind.bind, EStateM.bind, hrun] at herr
    cases herr
    exact h w e _ hrun

theorem Refusing.ite {condition : Prop} [Decidable condition] {yes no : ServiceM α} (hyes : Refusing yes)
    (hno : Refusing no) : Refusing (if condition then yes else no) := by
  split
  · exact hyes
  · exact hno

/-! Taking things in can only end the process. -/

theorem self_failing {fault : Fault → Prop} : Failing fault self := .of_ok fun w => ⟨w.service, w, rfl⟩

theorem tolerate_panics (program : ServiceM α) : Failing (· = Fault.panic) (tolerate program) := by
  intro w e u h
  unfold tolerate at h
  cases hrun : program w with
  | ok a v => rw [hrun] at h; cases h
  | error fault v =>
    rw [hrun] at h
    cases fault with
    | err e => cases h
    | panic => cases h; rfl

theorem mintRequestId_panics : Failing (· = Fault.panic) mintRequestId :=
  self_failing.bind fun _ => .bind (.modify _) fun _ => .pure _

theorem enqueue_panics (workload : WorkloadSpec) (owner : OwnerId) :
    Failing (· = Fault.panic) (enqueue workload owner) :=
  .bind (.modify _) fun _ => .modify _

theorem restartLease_panics (id : LeaseId) (lease : Lease) :
    Failing (· = Fault.panic) (restartLease id lease) := by
  unfold restartLease
  refine self_failing.bind fun s => ?_
  dsimp only
  refine .ite (.pure none) ?_
  split
  · exact .pure none
  · refine .ite (.pure none) (.bind (.modify _) fun _ => .ite ?_ (.ite (.pure none) ?_))
    · exact .bind (.modify _) fun _ => .pure none
    · refine .bind (.modify _) fun _ => mintRequestId_panics.bind fun fresh => ?_
      exact .bind (.modify _) fun _ => .bind (.modify _) fun _ => .pure _

theorem dropDead_panics (group : ServiceGroup) : Failing (· = Fault.panic) (dropDead group) :=
  self_failing.bind fun _ => .bind (.modify _) fun _ =>
    .ite (.bind (.modify _) fun _ => .pure _) (.pure _)

theorem submitMember_panics (group : ServiceGroup) (replaces : Bool) (pin : Option NodeId) :
    Failing (· = Fault.panic) (submitMember group replaces pin) := by
  unfold submitMember
  extract_lets rest
  have hrest : ∀ done, Failing (· = Fault.panic) (rest done) := fun done =>
    mintRequestId_panics.bind fun id => .bind (.modify _) fun _ =>
      (enqueue_panics _ _).bind fun _ => .bind (.modify _) fun _ => .pure _
  exact .ite (self_failing.bind fun _ => .bind (.modify _) hrest) (hrest ())

theorem replacementsOf_panics (group : ServiceGroup) : Failing (· = Fault.panic) (replacementsOf group) :=
  self_failing.bind fun _ => .bind (.modify _) fun _ => .pure _

theorem reconcilePerMachine_panics (group : ServiceGroup) (machines : List NodeId)
    (live : List RequestId) (died : Nat) :
    Failing (· = Fault.panic) (reconcilePerMachine group machines live died) := by
  unfold reconcilePerMachine
  refine self_failing.bind fun _ => .ite (.pure []) ?_
  refine (replacementsOf_panics group).bind fun count => .ite (.pure []) ?_
  refine self_failing.bind fun _ => .ite (.pure []) ?_
  exact (Failing.mapM fun machine _ => submitMember_panics group _ _).bind fun _ =>
    .bind (.modify _) fun _ => .pure _

theorem stopMember_panics (progress : Nat × List RequestId) (member : RequestId) :
    Failing (· = Fault.panic) (stopMember progress member) := by
  unfold stopMember
  refine .ite (.pure _) (self_failing.bind fun s => ?_)
  split
  · refine (tolerate_panics _).bind fun revoked => ?_
    split
    · exact .pure _
    · exact .pure _
  · exact .ite (.bind (.bind (.modify _) fun _ => .modify _) fun _ => .pure _) (.pure _)

theorem scaleDown_panics (group : ServiceGroup) (excess : Nat) (live : List RequestId) :
    Failing (· = Fault.panic) (scaleDown group excess live) :=
  (Failing.foldlM (fun progress member _ => stopMember_panics progress member) _).bind fun _ =>
    .bind (.modify _) fun _ => .pure _

theorem fillGroup_panics (group : ServiceGroup) (desired : Nat) (live : List RequestId) (died : Nat) :
    Failing (· = Fault.panic) (fillGroup group desired live died) := by
  unfold fillGroup
  refine .ite (.pure []) ?_
  refine (replacementsOf_panics group).bind fun count => self_failing.bind fun _ => ?_
  refine (Failing.mapM fun index _ => submitMember_panics group _ _).bind fun _ => ?_
  exact .ite (.bind (.modify _) fun _ => .pure _) (.pure _)

theorem reconcileGroup_panics (machines : List NodeId) (group : ServiceGroup) :
    Failing (· = Fault.panic) (reconcileGroup machines group) := by
  unfold reconcileGroup
  refine (dropDead_panics group).bind fun found => ?_
  obtain ⟨live, died⟩ := found
  dsimp only
  split
  · exact reconcilePerMachine_panics _ _ _ _
  · exact .ite ((scaleDown_panics _ _ _).bind fun _ => fillGroup_panics _ _ _ _) (fillGroup_panics _ _ _ _)

theorem persist_panics (command : Option Command) : Failing (· = Fault.panic) (persist command) :=
  .of_ok fun _ => ⟨(), _, persist_run command⟩

theorem queueRestarts_panics : Failing (· = Fault.panic) queueRestarts := by
  have htake : Failing (· = Fault.panic) takeRestarts :=
    self_failing.bind fun _ => .filterMapM fun item _ => restartLease_panics item.1 item.2
  refine htake.bind fun taken => .bind (.forM fun restart _ => enqueue_panics _ _) fun _ => ?_
  exact (persist_panics none).bind fun _ => .pure _

theorem reconcileServiceGroups_panics : Failing (· = Fault.panic) reconcileServiceGroups :=
  self_failing.bind fun _ => (Failing.mapM fun group _ => reconcileGroup_panics _ group).bind fun _ =>
    (persist_panics none).bind fun _ => .pure _

theorem registerServiceGroup_refusing (group : ServiceGroup) : Refusing (registerServiceGroup group) := by
  refine .after_reading (fun w => ?_) fun _ => ?_
  · cases group.cardinality.validate <;> rfl
  · exact refusing_of_panics (.bind (.modify _) fun _ => persist_panics none)

theorem scaleServiceGroup_saving (id : String) (target : Nat) :
    Gives (scaleServiceGroup id target) ∧ Refusing (scaleServiceGroup id target) := by
  unfold scaleServiceGroup
  constructor
  · refine .bind _ fun s => ?_
    split
    · exact gives_throw _
    · split
      · exact .ite (gives_throw _) (.bind _ fun _ => gives_persist.result _)
      · exact gives_throw _
  · refine .after_reading (fun w => rfl) fun s => ?_
    split
    · exact refusing_throw _
    · split
      · refine .ite (refusing_throw _) (refusing_of_panics ?_)
        exact .bind (.modify _) fun _ => (persist_panics none).bind fun _ => .pure _
      · exact refusing_throw _

/-- What takes something in gives it to the sink or has written nothing. -/
theorem Operation.saving {operation : Operation} (hintake : operation.isIntake)
    (hrestore : operation ≠ .restoreLast) : Gives operation.program ∧ Refusing operation.program := by
  cases operation with
  | submit workload owner =>
    exact ⟨.bind _ fun _ => gives_persist,
      refusing_of_panics ((enqueue_panics _ _).bind fun _ => persist_panics none)⟩
  | queueRestarts =>
    refine ⟨Gives.result (.bind _ fun _ => .bind _ fun _ => gives_persist.result _) _, ?_⟩
    exact (refusing_of_panics queueRestarts_panics).result _
  | registerServiceGroup group =>
    exact ⟨.bind _ fun _ => .bind _ fun _ => gives_persist, registerServiceGroup_refusing group⟩
  | scaleServiceGroup id target =>
    obtain ⟨hgives, hrefusing⟩ := scaleServiceGroup_saving id target
    exact ⟨hgives.result _, hrefusing.result _⟩
  | removeServiceGroup id =>
    exact ⟨.bind _ fun _ => gives_persist,
      refusing_of_panics (.bind (.modify _) fun _ => persist_panics none)⟩
  | reconcileServiceGroups =>
    refine ⟨Gives.result (.bind _ fun _ => .bind _ fun _ => gives_persist.result _) _, ?_⟩
    exact (refusing_of_panics reconcileServiceGroups_panics).result _
  | restoreLast => exact absurd rfl hrestore
  | _ => cases hintake

/-! Between operations. -/

/-- The controller between its operations. -/
structure Settled (durableSink : Bool) (w : World) : Prop where
  kept : Kept w
  sunk : Sunk durableSink w
  synced : Synced w

theorem restoreLast_cases (w : World) :
    (lastPersisted w.trace = none ∧ restoreLast w = .ok () w) ∨
      ∃ saved, lastPersisted w.trace = some saved ∧
        restoreLast w = .ok () (after (restoreState saved) w) := by
  unfold restoreLast
  cases hlast : lastPersisted w.trace with
  | none => exact .inl ⟨rfl, rfl⟩
  | some saved => exact .inr ⟨saved, rfl, rfl⟩

theorem Operation.synced {operation : Operation} (h : operation.Permitted licence w)
    (hw : Settled durableSink w) (hsunk : Sunk durableSink (after operation.program w))
    (halive : ∀ u, operation.program w ≠ .error .panic u) : Synced (after operation.program w) := by
  cases hintake : operation.isIntake with
  | false =>
    exact (Operation.drifts hintake hw.kept.now.grounded h).preserves (fun _ _ => Drift.synced) hw.synced
  | true =>
    by_cases hrestore : operation = .restoreLast
    · subst hrestore
      change Synced (after Service.restoreLast w)
      rcases restoreLast_cases w with ⟨-, hrun⟩ | ⟨saved, hlast, hrun⟩
      · rw [after_of_ok hrun]
        exact hw.synced
      · rw [after_of_ok hrun]
        intro state hstate
        rw [show (after (restoreState saved) w).trace = w.trace from rfl, hlast] at hstate
        cases hstate
        exact .refl _
    · obtain ⟨hgives, hrefusing⟩ := Operation.saving hintake hrestore
      cases hrun : operation.program w with
      | ok a u =>
        rw [after_of_ok hrun] at hsunk ⊢
        intro state hlast
        cases hsink : durableSink with
        | false => rw [hsunk.unsunk hsink] at hlast; cases hlast
        | true =>
          rw [hgives w a u hrun (hsunk.sink.trans hsink)] at hlast
          cases hlast
          exact .refl _
      | error fault u =>
        cases fault with
        | panic => exact absurd hrun (halive u)
        | err e =>
          rw [after_of_error hrun, hrefusing w e u hrun]
          exact hw.synced

namespace Process

/-- A controller that still runs has settled. -/
def Settles (durableSink : Bool) (p : Process) : Prop := p.alive → Settled durableSink p.world

theorem take_alive {p : Process} {operation : Operation} (h : (p.take operation).alive) :
    p.alive ∧ ∀ u, operation.program p.world ≠ .error .panic u := by
  cases hbefore : p.alive with
  | false =>
    rw [Process.take, hbefore, if_neg Bool.false_ne_true] at h
    rw [hbefore] at h
    cases h
  | true =>
    refine ⟨rfl, fun u hrun => ?_⟩
    rw [Process.take, hbefore, if_pos rfl, hrun] at h
    cases h

theorem take_after {p : Process} {operation : Operation} (h : p.alive) :
    (p.take operation).world = after operation.program p.world := by
  unfold Process.take after
  rw [h, if_pos rfl]
  cases operation.program p.world with
  | ok a u => rfl
  | error fault u => cases fault <;> rfl

theorem Settles.take {p : Process} {operation : Operation} (hp : Settles durableSink p)
    (h : operation.Permitted licence p.world) : Settles durableSink (p.take operation) := by
  intro halive
  obtain ⟨hbefore, hnever⟩ := take_alive halive
  have hw := hp hbefore
  have hfollows := Operation.stirs hw.kept h
  rw [take_after hbefore]
  have hsunk : Sunk durableSink (after operation.program p.world) :=
    hfollows.preserves (fun _ _ => Stir.sunk) hw.sunk
  exact ⟨hfollows.preserves kept_stirs hw.kept, hsunk, Operation.synced h hw hsunk hnever⟩

theorem settles_boot {cluster : Cluster} {state : ServiceState} (hcluster : cluster.Reachable)
    (hstate : Numbered state) (durableSink : Bool) : Settles durableSink (boot cluster state durableSink) :=
  fun _ => ⟨kept_boot hcluster hstate durableSink, ⟨rfl, fun _ => rfl⟩, fun saved hlast => by cases hlast⟩

/-- What every other step keeps, and going back to a state alike, a run with restores keeps. -/
theorem run_saved {inv : World → Prop} {start : Process} (hsettled : Settles durableSink start)
    (hstart : inv start.world) (hmove : ∀ w u, Kept w → Stir unrestored w u → inv w → inv u)
    (hback : ∀ w saved, Alike saved w.service.state → inv w → inv (after (restoreState saved) w))
    (operations : List Operation) :
    Settles durableSink (start.run operations) ∧ inv (start.run operations).world := by
  refine @Runs.invariant _ _ Process.take start (fun p => Settles durableSink p ∧ inv p.world)
    ⟨hsettled, hstart⟩ (fun before operation hbefore => ?_) operations
  rw [Runs.run_concat]
  generalize Runs.run Process.take start before = p at hbefore ⊢
  obtain ⟨hp, hinv⟩ := hbefore
  refine ⟨hp.take (permitted_unrestricted operation), ?_⟩
  cases halive : p.alive with
  | false =>
    rw [Process.take, halive, if_neg Bool.false_ne_true]
    exact hinv
  | true =>
    have hw := hp halive
    rcases take_world p operation with heq | heq
    · rw [heq]
      exact hinv
    · rw [heq]
      by_cases hrestore : operation = .restoreLast
      · subst hrestore
        change inv (after Service.restoreLast p.world)
        rcases restoreLast_cases p.world with ⟨-, hrun⟩ | ⟨saved, hlast, hrun⟩
        · rw [after_of_ok hrun]
          exact hinv
        · rw [after_of_ok hrun]
          exact hback p.world saved (hw.synced saved hlast) hinv
      · have hfollows := Operation.stirs hw.kept (permitted_unrestored hrestore)
        have hkeeps : ∀ t u, Stir unrestored t u → Kept t ∧ inv t → Kept u ∧ inv u := by
          rintro t u hstir ⟨ht, hinvt⟩
          exact ⟨hstir.kept ht, hmove t u ht hstir hinvt⟩
        exact (hfollows.preserves hkeeps ⟨hw.kept, hinv⟩).2

end Process
end Archon.Node
