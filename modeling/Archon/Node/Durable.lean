import Archon.Node.Replaying
import Archon.Node.Saving
import Archon.Node.Requests

/-! What a controller has when it goes down. Each step of a controller with a sink gives it
every command that the cluster accepts; between operations the sink has the controller's own
cluster but for the clock, and its own state but for ids that were drawn and never recorded. -/
namespace Archon.Node
open Archon.Kernel Fallible Service

variable {own : Bool} {licence : Licence} {w u : World} {start : NodeService}

/-- What the sink was given. -/
def deposits (trace : List Entry) : List Entry := trace.filter fun entry => entry.seen.isDeposit

/-- The controller as the sink has it, or as it started. -/
def held (start : NodeService) (trace : List Entry) : NodeService :=
  ((deposits trace).getLast?.map Entry.service).getD start

theorem deposits_append (before extra : List Entry) :
    deposits (before ++ extra) = deposits before ++ deposits extra := List.filter_append ..

theorem held_of_new {before trace : List Entry} {entry : Entry}
    (h : deposits trace = deposits before ++ [entry]) : held start trace = entry.service := by
  rw [held, h, List.getLast?_concat]
  rfl

theorem held_of_same {before trace : List Entry} (h : deposits trace = deposits before) :
    held start trace = held start before := by
  rw [held, h, held]

theorem lastPersisted_eq (trace : List Entry) :
    lastPersisted trace = (deposits trace).getLast?.map fun entry => entry.service.state := by
  unfold lastPersisted deposits
  rw [List.findRev?_eq_find?_reverse, ← List.head?_filter, List.filter_reverse, List.head?_reverse]
  refine congrArg (fun kind => ((List.filter kind trace).getLast?).map _) (funext fun entry => ?_)
  cases entry.seen <;> rfl

theorem held_of_lastPersisted {trace : List Entry} {state : ServiceState}
    (h : lastPersisted trace = some state) : (held start trace).state = state := by
  rw [lastPersisted_eq] at h
  obtain ⟨entry, hentry, rfl⟩ := Option.map_eq_some_iff.mp h
  rw [held, hentry]
  rfl

/-! What the sink is given in a step. -/

/-- Nothing while the cluster stands, the state alone, or a command that the cluster accepts. -/
inductive Deposit (w u : World) : Prop where
  | nothing (hnone : deposits u.trace = deposits w.trace)
      (htwin : w.service.cluster.Twin u.service.cluster)
  | state (hnew : deposits u.trace = deposits w.trace ++ [⟨w.service, .persisted none⟩])
      (hservice : u.service = w.service)
  | command {service : NodeService} (hsame : service.cluster = w.service.cluster)
      (happly : Cluster.apply command w.service.cluster = .ok effects cluster)
      (hnew : deposits u.trace = deposits w.trace ++
        [⟨{ service with cluster }, .persisted (some command)⟩])
      (hcluster : u.service.cluster = cluster) (hstate : u.service.state = service.state)

theorem deposit_nothing {extra : List Entry} (htrace : u.trace = w.trace ++ extra)
    (hseen : ∀ entry ∈ extra, entry.seen.isDeposit = false)
    (htwin : w.service.cluster.Twin u.service.cluster) : Deposit w u := by
  refine .nothing ?_ htwin
  have hnone : deposits extra = [] := List.filter_eq_nil_iff.mpr fun entry hentry => by
    rw [hseen entry hentry]
    exact Bool.false_ne_true
  rw [htrace, deposits_append, hnone, List.append_nil]

theorem deposit_unseen (htrace : u.trace = w.trace) (htwin : w.service.cluster.Twin u.service.cluster) :
    Deposit w u :=
  deposit_nothing (by rw [htrace, List.append_nil]) (fun entry hentry => by cases hentry) htwin

theorem deposit_seen {entry : Entry} (htrace : u.trace = w.trace ++ [entry])
    (hseen : entry.seen.isDeposit = false) (htwin : w.service.cluster.Twin u.service.cluster) :
    Deposit w u := by
  refine deposit_nothing htrace (fun other hother => ?_) htwin
  rw [List.mem_singleton.mp hother]
  exact hseen

theorem deposits_commit (hsink : w.service.durableSink) (command : Command) (effects : List Effect)
    (cluster : Cluster) : deposits (w.commit command effects cluster).trace =
      deposits w.trace ++ [⟨{ w.service with cluster }, .persisted (some command)⟩] := by
  rw [trace_commit_eq, if_pos hsink, deposits_append]
  rfl

theorem deposit_commit {command : Command} {effects : List Effect} {cluster : Cluster}
    (hsink : w.service.durableSink) (happly : Cluster.apply command w.service.cluster = .ok effects cluster) :
    Deposit w (w.commit command effects cluster) :=
  .command rfl happly (deposits_commit hsink command effects cluster) (by rw [service_commit])
    (by rw [service_commit])

theorem Move.deposit (h : Move own w u) (hsink : w.service.durableSink) (hw : Grounded w) :
    Deposit w u := by
  cases h with
  | commit _ happly => exact deposit_commit hsink happly
  | hello _ happly => exact deposit_commit hsink happly
  | persist => exact .state (deposits_append _ _) rfl
  | refuse happly =>
    obtain rfl := Cluster.Reachable.refused hw happly
    exact deposit_unseen rfl (.refl _)
  | clock now => exact deposit_unseen rfl rfl
  | call =>
    unfold World.call
    split
    · exact deposit_seen rfl rfl (.refl _)
    · exact deposit_unseen rfl (.refl _)
  | answerStart lease machine session reply =>
    have hanswer : deposits (w.answer (.executionStart lease machine session) reply).trace =
        deposits w.trace := by
      rw [World.answer, World.observe, World.update, deposits_append]
      exact List.append_nil _
    refine answerStart_cases (w := w) (motive := Deposit w) lease machine session reply ?_ ?_ ?_
    · exact fun _ => .nothing hanswer (.refl _)
    · intro reason effects cluster happly
      have hnew := @deposits_commit (w.answer (.executionStart lease machine session) reply) hsink
        (.failLease lease reason) effects cluster
      rw [hanswer] at hnew
      refine .command ?_ happly hnew ?_ ?_
      · rfl
      · rw [service_commit]
      · rw [service_commit]
    · intro reason e left happly
      obtain rfl := Cluster.Reachable.refused hw happly
      exact .nothing hanswer (.refl _)
  | answer | pop | drain | report | recover | join | recovered => exact deposit_seen rfl rfl (.refl _)
  | hold | rehold | activate | adopt | start | stop | await | status | endpoints | stray | closed
  | session | inert => exact deposit_unseen rfl (.refl _)

theorem Stir.deposit (h : Stir licence w u) (hsink : w.service.durableSink) (hw : Grounded w) :
    Deposit w u := by
  cases h with
  | move hmove => exact Move.deposit hmove hsink hw
  | opening _ _ happly => exact deposit_commit hsink happly
  | @grant admission effects cluster index queued _ _ _ happly =>
    have hnew := @deposits_commit (w.setState (w.service.state.admitted admission index)) hsink
      (w.openCommand admission) effects cluster
    refine .command ?_ happly hnew ?_ ?_
    · rfl
    · rw [service_commit]
    · rw [service_commit]
  | deny _ _ _ happly =>
    obtain rfl := Cluster.Reachable.refused hw happly
    exact deposit_unseen rfl (.refl _)
  | enqueue | enroll | draw | restart | cancel | enlist => exact deposit_seen rfl rfl (.refl _)
  | bind | tally | giveUp | regroup | restore => exact deposit_unseen rfl (.refl _)

/-! The sink has the cluster. -/

def Mirrored (start : NodeService) (w : World) : Prop :=
  (held start w.trace).cluster.Twin w.service.cluster

theorem Deposit.mirrored (h : Deposit w u) (hw : Mirrored start w) : Mirrored start u := by
  unfold Mirrored at hw ⊢
  cases h with
  | nothing hnone htwin =>
    rw [held_of_same hnone]
    exact hw.trans htwin
  | state hnew hservice =>
    rw [held_of_new hnew, hservice]
    exact .refl _
  | command _ _ hnew hcluster =>
    rw [held_of_new hnew, hcluster]
    exact .refl _

/-- What the sink is given follows from what it has: the cluster stands, or a command takes it there. -/
def Chain (start : NodeService) (before : List Entry) (entry : Entry) : Prop :=
  (entry.seen = .persisted none → (held start before).cluster.Twin entry.service.cluster) ∧
    ∀ command, entry.seen = .persisted (some command) → ∃ cluster effects,
      (held start before).cluster.Twin cluster ∧
        Cluster.apply command cluster = .ok effects entry.service.cluster

/-- One new deposit is the only deposit of what was seen since. -/
theorem deposits_single {before extra init tail : List Entry} {entry new : Entry}
    (hnew : deposits (before ++ extra) = deposits before ++ [new]) (hextra : extra = init ++ entry :: tail)
    (hentry : entry.seen.isDeposit) : entry = new ∧ deposits (before ++ init) = deposits before := by
  rw [deposits_append, hextra, deposits_append] at hnew
  have hcons : deposits (entry :: tail) = entry :: deposits tail := List.filter_cons_of_pos hentry
  rw [hcons] at hnew
  have hone := List.append_cancel_left hnew
  cases hinit : deposits init with
  | nil =>
    rw [hinit] at hone
    rw [deposits_append, hinit, List.append_nil]
    exact ⟨(List.cons.inj hone).1, rfl⟩
  | cons first rest =>
    rw [hinit] at hone
    simp at hone

theorem Deposit.chained {extra : List Entry} (h : Deposit w u) (htrace : u.trace = w.trace ++ extra)
    (hmirrored : Mirrored start w) (hw : Throughout (Chain start) w.trace) :
    Throughout (Chain start) u.trace := by
  rw [htrace]
  refine hw.extend fun init entry tail heq => ?_
  have hdeposit : ∀ command, entry.seen = .persisted command → entry.seen.isDeposit := by
    intro command hseen
    rw [hseen]
    rfl
  cases h with
  | nothing hnone =>
    rw [htrace, deposits_append] at hnone
    have hnil := List.append_right_eq_self.mp hnone
    have hunseen : ∀ command, entry.seen ≠ .persisted command := by
      intro command hseen
      have hmem : entry ∈ deposits extra :=
        List.mem_filter.mpr ⟨by rw [heq]; simp, hdeposit command hseen⟩
      rw [hnil] at hmem
      cases hmem
    exact ⟨fun hseen => absurd hseen (hunseen _), fun command hseen => absurd hseen (hunseen _)⟩
  | state hnew =>
    rw [htrace] at hnew
    refine ⟨fun hseen => ?_, fun command hseen => ?_⟩
    · obtain ⟨rfl, hbefore⟩ := deposits_single hnew heq (hdeposit _ hseen)
      rw [held_of_same hbefore]
      exact hmirrored
    · obtain ⟨rfl, -⟩ := deposits_single hnew heq (hdeposit _ hseen)
      cases hseen
  | command hsame happly hnew =>
    rw [htrace] at hnew
    refine ⟨fun hseen => ?_, fun command hseen => ?_⟩
    · obtain ⟨rfl, -⟩ := deposits_single hnew heq (hdeposit _ hseen)
      cases hseen
    · obtain ⟨rfl, hbefore⟩ := deposits_single hnew heq (hdeposit _ hseen)
      cases hseen
      rw [held_of_same hbefore]
      exact ⟨w.service.cluster, _, hmirrored, happly⟩

/-! The sink has the state. -/

/-- States that differ in ids alone. Request ids are not among these. -/
def Kin (s t : ServiceState) : Prop :=
  ∃ nextLease nextSession nextBinding, t = { s with nextLease, nextSession, nextBinding }

theorem Kin.refl (s : ServiceState) : Kin s s := ⟨_, _, _, rfl⟩

theorem Kin.trans {r s t : ServiceState} (h : Kin r s) (h' : Kin s t) : Kin r t := by
  obtain ⟨_, _, _, rfl⟩ := h
  obtain ⟨_, _, _, rfl⟩ := h'
  exact ⟨_, _, _, rfl⟩

def Current (start : NodeService) (w : World) : Prop :=
  Kin (held start w.trace).state w.service.state

theorem Drift.current (h : Drift licence w u) (hsink : w.service.durableSink) (hgrounded : Grounded w)
    (hcustody : InCustody w) (hw : Current start w) : Current start u := by
  unfold Current at hw ⊢
  cases h.stir.deposit hsink hgrounded with
  | state hnew hservice =>
    rw [held_of_new hnew, hservice]
    exact .refl _
  | command _ _ hnew _ hstate =>
    rw [held_of_new hnew, hstate]
    exact .refl _
  | nothing hnone =>
    rw [held_of_same hnone]
    refine hw.trans ?_
    have hsilent : ∀ {entry : Entry}, deposits w.trace ++ [entry] ≠ deposits w.trace := fun heq =>
      List.cons_ne_nil _ _ (List.append_right_eq_self.mp heq)
    cases h with
    | move hmove =>
      obtain ⟨next, hstate⟩ := Move.keeps_state hmove
      rw [hstate]
      exact ⟨_, _, _, rfl⟩
    | bind => exact ⟨_, _, _, rfl⟩
    | draw => exact .refl _
    | opening => exact absurd ((deposits_commit hsink _ _ _).symm.trans hnone) hsilent
    | @grant admission effects cluster index =>
      have hnew := @deposits_commit (w.setState (w.service.state.admitted admission index)) hsink
        (w.openCommand admission) effects cluster
      exact absurd (hnew.symm.trans hnone) hsilent
    | deny hlast hqueued hrequest =>
      change Kin w.service.state (w.service.state.returned _ _ _)
      rw [hcustody.returned_eq hqueued hrequest]
      exact ⟨_, _, _, rfl⟩

/-- What is in one place is there in a state that differs in ids alone. -/
theorem ExactlyOnce.kin {cluster sunk : Cluster} {s t : ServiceState} {id : RequestId}
    (h : ExactlyOnce cluster t id) (htwin : sunk.Twin cluster) (hkin : Kin s t) : ExactlyOnce sunk s id := by
  have hleases : sunk.leases = cluster.leases := by
    rw [htwin]
  obtain ⟨_, _, _, rfl⟩ := hkin
  cases h with
  | queued honce hpayload hnone => exact .queued honce hpayload hnone
  | carried hunqueued hcarried halone hlease => exact .carried hunqueued hcarried halone (hleases ▸ hlease)

/-! Going back to what the sink has. -/

theorem saved_of_lastPersisted {saved : ServiceState} (hw : Throughout SavedInCustody w.trace)
    (hlast : lastPersisted w.trace = some saved) :
    ∃ before cluster, Entrusted before cluster saved := by
  obtain ⟨entry, hentry, command, hseen, rfl⟩ := lastPersisted_some hlast
  obtain ⟨before, after, htrace⟩ := List.append_of_mem hentry
  exact ⟨before, _, hw before entry after htrace command hseen⟩

theorem Custodian.restored {saved : ServiceState} (h : Custodian w)
    (hlast : lastPersisted w.trace = some saved) (hkin : Kin saved w.service.state) :
    Custodian (after (restoreState saved) w) := by
  obtain ⟨before, cluster, hsaved⟩ := saved_of_lastPersisted h.saved hlast
  obtain ⟨nextLease, nextSession, nextBinding, hstate⟩ := hkin
  have hnow := h.now
  unfold InCustody at hnow
  rw [hstate] at hnow
  have hplaced : InPlace w.trace w.service.cluster saved :=
    hnow.toInPlace.keep rfl rfl rfl (fun _ htaken => htaken) fun _ lease hlease => ⟨lease, hlease⟩
  exact ⟨⟨hplaced, hsaved.below⟩, h.saved⟩

namespace Process

/-- Everything but requests under ids in use. -/
def retained : Licence := ⟨true, true, false, true, true, true⟩

/-- What every step of a controller with a sink keeps. -/
structure Backed (start : NodeService) (w : World) : Prop where
  kept : Kept w
  sunk : Sunk true w
  mirrored : Mirrored start w
  chained : Throughout (Chain start) w.trace

theorem Backed.stir (h : Stir licence w u) (hw : Backed start w) : Backed start u := by
  have hdeposit := h.deposit hw.sunk.sink hw.kept.now.grounded
  obtain ⟨extra, htrace, -⟩ := h.saves
  exact ⟨h.kept hw.kept, h.sunk hw.sunk, hdeposit.mirrored hw.mirrored,
    hdeposit.chained htrace hw.mirrored hw.chained⟩

/-- The sink of a new controller has nothing, which is what the controller has. -/
theorem backed_new : Backed (new true).world.service (new true).world :=
  ⟨kept_new true, ⟨rfl, fun _ => rfl⟩, .refl _, .nil⟩

theorem run_backed (operations : List Operation) :
    Backed (new true).world.service ((new true).run operations).world :=
  (run_stirs (kept_new true) backed_new (fun _ _ _ hstir hw => hw.stir hstir)
    (permits_unrestricted operations)).2

/-- A controller with a sink between its operations, while ids last. -/
structure Whole (start : NodeService) (w : World) : Prop where
  custodian : Custodian w
  current : Current start w

theorem permitted_custodial {operation : Operation} (h : operation.Permitted retained w)
    (hrestore : operation ≠ .restoreLast) : operation.Permitted custodial w := by
  cases operation with
  | restoreLast => exact absurd rfl hrestore
  | _ => exact h

theorem Whole.restored {saved : ServiceState} (hw : Whole start w)
    (hlast : lastPersisted w.trace = some saved) : Whole start (after (restoreState saved) w) := by
  have hheld : (held start w.trace).state = saved := held_of_lastPersisted hlast
  have hkin := hw.current
  unfold Current at hkin
  rw [hheld] at hkin
  refine ⟨hw.custodian.restored hlast hkin, ?_⟩
  change Kin (held start w.trace).state saved
  rw [hheld]
  exact .refl _

theorem custodian_operated {operation : Operation} (hw : Custodian w) (hkept : Kept w)
    (h : operation.Permitted custodial w) :
    Exhausted (after operation.program w).trace ∨ Custodian (after operation.program w) := by
  have hkeeps : ∀ t v, Stir custodial t v → Kept t ∧ (Exhausted t.trace ∨ Custodian t) →
      Kept v ∧ (Exhausted v.trace ∨ Custodian v) := by
    rintro t v hstir ⟨ht, hcustodian⟩
    refine ⟨hstir.kept ht, ?_⟩
    exact hstir.lasting hcustodian fun hids hbefore => hstir.custodian rfl rfl hids ht hbefore
  exact ((Operation.stirs hkept h).preserves hkeeps ⟨hkept, .inr hw⟩).2

/-- An operation that takes nothing in leaves the sink with the state. -/
theorem Whole.drifted {operation : Operation} (hw : Whole start w) (hbacked : Backed start w)
    (h : operation.Permitted custodial w) (hintake : operation.isIntake = false) :
    Exhausted (after operation.program w).trace ∨ Whole start (after operation.program w) := by
  have hkeeps : ∀ t v, Drift custodial t v → Backed start t ∧ (Exhausted t.trace ∨ Whole start t) →
      Backed start v ∧ (Exhausted v.trace ∨ Whole start v) := by
    rintro t v hdrift ⟨ht, hwhole⟩
    refine ⟨ht.stir hdrift.stir, ?_⟩
    refine hdrift.stir.lasting hwhole fun hids hbefore => ?_
    obtain ⟨hcustodian, hcurrent⟩ := hbefore
    exact ⟨hdrift.stir.custodian rfl rfl hids ht.kept hcustodian,
      hdrift.current ht.sunk.sink ht.kept.now.grounded hcustodian.now hcurrent⟩
  have hdrifts := Operation.drifts hintake hbacked.kept.now.grounded h
  exact (hdrifts.preserves hkeeps ⟨hbacked, .inr hw⟩).2

theorem Whole.operated {operation : Operation} (hw : Whole start w) (hbacked : Backed start w)
    (h : operation.Permitted retained w) (hrestore : operation ≠ .restoreLast)
    (halive : ∀ u, operation.program w ≠ .error .panic u) :
    Exhausted (after operation.program w).trace ∨ Whole start (after operation.program w) := by
  have hpermitted := permitted_custodial h hrestore
  cases hintake : operation.isIntake with
  | false => exact hw.drifted hbacked hpermitted hintake
  | true =>
    refine (custodian_operated hw.custodian hbacked.kept hpermitted).imp_right fun hcustodian => ⟨hcustodian, ?_⟩
    have hsink := (Operation.stirs hbacked.kept hpermitted).preserves (fun _ _ => Stir.sunk) hbacked.sunk
    obtain ⟨hgives, hrefusing⟩ := Operation.saving hintake hrestore
    cases hrun : operation.program w with
    | ok a v =>
      rw [after_of_ok hrun] at hsink ⊢
      unfold Current
      rw [held_of_lastPersisted (hgives w a v hrun hsink.sink)]
      exact .refl _
    | error fault v =>
      cases fault with
      | panic => exact absurd hrun (halive v)
      | err e =>
        rw [after_of_error hrun, hrefusing w e v hrun]
        exact hw.current

/-- What the sink has is enough for a controller that still runs. -/
structure Endures (start : NodeService) (p : Process) : Prop where
  backed : Backed start p.world
  whole : p.alive → Exhausted p.world.trace ∨ Whole start p.world

theorem Endures.take {p : Process} {operation : Operation} (hp : Endures start p)
    (h : operation.Permitted retained p.world) : Endures start (p.take operation) := by
  cases hbefore : p.alive with
  | false =>
    have hdead : p.take operation = p := by
      rw [Process.take, hbefore, if_neg Bool.false_ne_true]
    rw [hdead]
    exact hp
  | true =>
    have hstirs := Operation.stirs hp.backed.kept h
    constructor
    · rw [take_after hbefore]
      exact hstirs.preserves (fun _ _ => Backed.stir) hp.backed
    · intro halive
      rw [take_after hbefore]
      rcases hp.whole hbefore with hexhausted | hwhole
      · exact .inl (hstirs.preserves (fun _ _ => Stir.exhausted) hexhausted)
      · by_cases hrestore : operation = .restoreLast
        · subst hrestore
          change Exhausted (after Service.restoreLast p.world).trace ∨ Whole start (after Service.restoreLast p.world)
          rcases restoreLast_cases p.world with ⟨-, hrun⟩ | ⟨saved, hlast, hrun⟩
          · rw [after_of_ok hrun]
            exact .inr hwhole
          · rw [after_of_ok hrun]
            exact .inr (hwhole.restored hlast)
        · exact hwhole.operated hp.backed h hrestore (take_alive halive).2

theorem run_endures {operations : List Operation} (h : Permits retained (new true) operations) :
    Endures (new true).world.service ((new true).run operations) := by
  have hnew : Whole (new true).world.service (new true).world := ⟨⟨inCustody_new true, .nil⟩, .refl _⟩
  refine @Runs.invariant_along _ _ take (new true) _ (Endures (new true).world.service)
    ⟨backed_new, fun _ => .inr hnew⟩ (fun before operation _ hpermitted hbefore => ?_) operations h
  rw [Runs.run_concat]
  exact hbefore.take hpermitted

/-- Between the operations of a new controller whose submissions bring ids that the counter has not
passed, also after it went back to what it saved and as long as no request or lease has taken the last
id there is, the sink has its cluster but for the clock, its state but for ids that were drawn and never
recorded, and every accepted request in exactly one place. -/
theorem sink_has_everything {operations : List Operation} (h : Permits retained (new true) operations)
    (halive : ((new true).run operations).alive)
    (hlasts : ¬Exhausted ((new true).run operations).world.trace) :
    let w := ((new true).run operations).world
    let sunk := held (new true).world.service w.trace
    sunk.cluster.Twin w.service.cluster ∧ Kin sunk.state w.service.state ∧
      ∀ id, Taken w.trace id → ExactlyOnce sunk.cluster sunk.state id := by
  intro w sunk
  have hendures := run_endures h
  have hwhole := (hendures.whole halive).resolve_left hlasts
  refine ⟨hendures.backed.mirrored, hwhole.current, fun id htaken => ?_⟩
  exact (hwhole.custodian.now.exactlyOnce htaken).kin hendures.backed.mirrored hwhole.current

namespace Sample

/-- A request is accepted and admitted, and the controller goes back to what was saved then. -/
def reopened : List Operation :=
  [.register ⟨"w", "w", 2, 1, [], []⟩ ⟨.default, .default⟩,
   .submit (oneCpu 1) 1,
   .admitOne .default,
   .restoreLast,
   .submit (oneCpu 2) 1]

end Sample

theorem reopened_permitted : Permits retained (new true) Sample.reopened :=
  ⟨trivial, .inr (by decide +kernel), trivial, rfl, .inr (by decide +kernel), trivial⟩

theorem reopened_has_everything :
    let w := ((new true).run Sample.reopened).world
    let sunk := held (new true).world.service w.trace
    sunk.cluster.Twin w.service.cluster ∧ Taken w.trace 1 ∧ Taken w.trace 2 ∧
      ExactlyOnce sunk.cluster sunk.state 1 ∧ ExactlyOnce sunk.cluster sunk.state 2 := by
  obtain ⟨htwin, -, honce⟩ := @sink_has_everything Sample.reopened reopened_permitted (by decide +kernel)
    (by decide +kernel)
  have hfirst : Taken ((new true).run Sample.reopened).world.trace 1 := by decide +kernel
  have hsecond : Taken ((new true).run Sample.reopened).world.trace 2 := by decide +kernel
  exact ⟨htwin, hfirst, hsecond, honce 1 hfirst, honce 2 hsecond⟩

end Process
end Archon.Node
