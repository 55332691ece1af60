import Archon.Agent.Sites
import Archon.Node.Holding

/-! A machine is vacated before its devices are given up. What the controller checks before it
sends a call, the workers, the connections and the agents carry to where the program runs. -/
namespace Archon.Agent
open Archon.Kernel Archon.Node Fallible

/-- The lease whose program the request stops. -/
def stopOf : AgentRequest → Option LeaseId
  | .stopExecution lease _ _ => some ⟨lease⟩
  | _ => none

/-- The machine and the session of the member that a call stops or asks about. -/
def placeOf : Tag → Option (NodeId × UInt64)
  | .executionStop _ machine session | .status _ machine session => some (machine, session)
  | _ => none

/-- The agent says that the program of the lease is gone. -/
inductive Parts (lease : LeaseId) : AgentResponse → Prop where
  | stopped : Parts lease (.executionStopped lease.asU64)
  | exited (code : Int32) : Parts lease (.running lease.asU64 false (some code))

/-- No start of the member can follow: its lease was stopped, or it was started before. -/
inductive Over (trace : List Entry) (member : MemberSession) : Prop where
  | stopped {entry : Entry} {machine : NodeId} {tag : Tag} {session epoch : UInt64} (hentry : entry ∈ trace)
      (hseen : entry.seen = .dispatched machine tag (.stopExecution member.lease.asU64 session epoch))
  | started {entry : Entry} (hentry : entry ∈ trace) (hseen : entry.seen.starts = some member)

section Calls
variable {c : Cluster} {trace before : List Entry} {entry : Entry} {member : MemberSession} {s : NodeService}
  {machine : NodeId} {tag : Tag} {request : AgentRequest} {lease : LeaseId}

theorem Over.kept {trace' : List Entry} (h : Over trace member) (hgrows : trace <+: trace') : Over trace' member := by
  cases h with
  | stopped hentry hseen => exact .stopped (hgrows.subset hentry) hseen
  | started hentry hseen => exact .started (hgrows.subset hentry) hseen

theorem ended_of_stop {session epoch : UInt64} (h : Calls s machine tag (.stopExecution lease.asU64 session epoch)) :
    Ended s.cluster lease ∧ ∃ current, s.cluster.sessions[machine]? = some current := by
  generalize hrequest : AgentRequest.stopExecution lease.asU64 session epoch = request at h
  cases h with
  | @stop _ found _ _ hterminal hsession =>
    obtain rfl : found = lease := by
      cases found
      cases lease
      cases hrequest
      rfl
    exact ⟨leaseIsTerminal_iff.mp hterminal, _, hsession⟩
  | _ => cases hrequest

/-- A call about a member is of the session that its machine is in. -/
theorem place_of_call {place : NodeId × UInt64} (h : Calls s machine tag request) (hplace : placeOf tag = some place) :
    place.1 = machine ∧ s.cluster.sessions[machine]? = some place.2 := by
  cases h with
  | stop _ hsession =>
    cases hplace
    exact ⟨rfl, hsession⟩
  | status hsession =>
    cases hplace
    exact ⟨rfl, hsession⟩
  | _ => cases hplace

theorem not_over (hc : c.Reachable) (hsent : Throughout (Sent c) (trace ++ [entry]))
    (hstarts : entry.seen.starts = some member) : ¬Over trace member := by
  have hentry := hsent trace entry [] rfl
  have hmay := hentry.barrier member hstarts
  intro hover
  cases hover with
  | @stopped stop machine tag session epoch hstop hseen =>
    obtain ⟨before, rest, rfl⟩ := List.append_of_mem hstop
    obtain ⟨s, hcluster, hcalls⟩ := (hsent.initial before stop rest rfl).called _ _ _ hseen
    have hended := (ended_of_stop hcalls).1
    rw [hcluster] at hended
    have hstill := hentry.traced.ended hc hstop (leaseIsTerminal_iff.mpr hended)
    have hinactive := hstill.not_active
    rw [hmay.active] at hinactive
    cases hinactive
  | started hearlier hseen => exact hmay.first _ hearlier hseen

end Calls

/-! One machine. -/

namespace Site

/-- The agent runs nothing of the lease, and nothing that starts it is on its way. -/
structure Gone (site : Site) (lease : LeaseId) : Prop where
  idle : (site.agent.slot lease).Idle
  unasked : ∀ job ∈ site.due, startOf job.request ≠ some lease

/-- What is held of a machine all along. -/
structure Sound (c : Cluster) (trace : List Entry) (machine : NodeId) (site : Site) : Prop where
  session : site.session = sessionAfter c machine trace
  accounted : ∀ lease, (site.agent.slot lease).Accounted
  sent : ∀ job ∈ site.due, ⟨job.sent, .dispatched machine job.tag job.request⟩ ∈ trace ∧
    job.sent.cluster.sessions[machine]? = site.session
  unstarted : ∀ lease, (∀ session, site.session = some session → ∀ entry ∈ trace,
    entry.seen.starts ≠ some ⟨lease, machine, session⟩) → (site.agent.slot lease).Untracked
  first : ∀ job ∈ site.due, ∀ lease, startOf job.request = some lease → (site.agent.slot lease).Untracked
  order : site.due.Pairwise fun earlier later => ∀ lease,
    startOf earlier.request = some lease ∨ stopOf earlier.request = some lease → startOf later.request ≠ some lease
  parted : ∀ response ∈ site.unread, ∀ lease, Parts lease response → site.Gone lease ∧
    ∃ session, site.session = some session ∧ Over trace ⟨lease, machine, session⟩
  awaited : ∀ tag ∈ site.waiting, ∀ place, placeOf tag = some place →
    place.1 = machine ∧ site.session = some place.2

variable {c : Cluster} {trace : List Entry} {entry : Entry} {machine : NodeId} {site next : Site} {lease : LeaseId}

theorem slot_new (cgroupRoot : Option String) (engine label : String) (lease : LeaseId) :
    (LeaseAgent.new (.new cgroupRoot engine label)).slot lease = ⟨none, false, none, false, false⟩ := by
  simp [LeaseAgent.slot, LeaseAgent.new, Executor.slot, Executor.new]

theorem Blank.due (h : site.Blank) : site.due = [] := by
  rw [Site.due, h.wire, h.backlog]
  rfl

theorem Blank.gone (h : site.Blank) (lease : LeaseId) : site.Gone lease := by
  obtain ⟨cgroupRoot, engine, label, hagent⟩ := h.agent
  refine ⟨?_, ?_⟩
  · rw [hagent, slot_new]
    exact ⟨rfl, rfl⟩
  · rw [h.due]
    simp

theorem Blank.sound (h : site.Blank) (hsession : site.session = sessionAfter c machine trace) :
    site.Sound c trace machine := by
  obtain ⟨cgroupRoot, engine, label, hagent⟩ := h.agent
  have hslot : ∀ lease, site.agent.slot lease = ⟨none, false, none, false, false⟩ := fun lease => by
    rw [hagent, slot_new]
  constructor
  · exact hsession
  · intro lease
    rw [hslot]
    exact ⟨by simp, by simp, by simp, by simp, by simp⟩
  · rw [h.due]
    simp
  · intro lease _
    rw [hslot]
    exact ⟨rfl, rfl, rfl⟩
  · rw [h.due]
    simp
  · rw [h.due]
    exact .nil
  · rw [h.unread]
    simp
  · rw [h.waiting]
    simp

/-- A step of the worker or of the agent: at most one program is started, the first of its
lease, and no call is added. -/
structure Turned (site next : Site) (started : Option LeaseId) : Prop where
  session : next.session = site.session
  due : next.due.Sublist site.due
  accounted : ∀ lease, (next.agent.slot lease).Accounted
  winds : ∀ lease, started ≠ some lease → (site.agent.slot lease).Winds (next.agent.slot lease)
  started : ∀ lease, started = some lease → (∃ job ∈ site.due, startOf job.request = some lease) ∧
    ∀ job ∈ next.due, startOf job.request ≠ some lease

theorem Turned.gone {started : Option LeaseId} (h : Turned site next started) (hgone : site.Gone lease) :
    next.Gone lease := by
  have hother : started ≠ some lease := by
    intro heq
    obtain ⟨⟨job, hjob, hstart⟩, -⟩ := h.started lease heq
    exact hgone.unasked job hjob hstart
  exact ⟨(h.winds lease hother).idle hgone.idle, fun job hjob => hgone.unasked job (h.due.subset hjob)⟩

theorem Sound.begun (h : site.Sound c trace machine) (hsent : Throughout (Sent c) trace) {job : Job}
    (hjob : job ∈ site.due) (hstart : startOf job.request = some lease) : ∃ session, site.session = some session ∧
      ∃ entry ∈ trace, entry.seen.starts = some ⟨lease, machine, session⟩ := by
  obtain ⟨hentry, hsession⟩ := h.sent job hjob
  obtain ⟨before, rest, heq⟩ := List.append_of_mem hentry
  have hbarrier := (hsent before _ rest heq).barrier
  cases hrequest : job.request with
  | startExecution =>
    rw [hrequest] at hstart hentry hbarrier
    cases hstart
    refine ⟨_, ?_, _, hentry, rfl⟩
    rw [← hsession]
    exact (hbarrier _ rfl).current
  | _ =>
    rw [hrequest] at hstart
    cases hstart

theorem Turned.sound {started : Option LeaseId} (h : Turned site next started) (hsite : site.Sound c trace machine)
    (hsent : Throughout (Sent c) trace)
    (hunread : ∀ response ∈ next.unread, response ∈ site.unread ∨ ∀ lease, Parts lease response → next.Gone lease ∧
      ∃ session, next.session = some session ∧ Over trace ⟨lease, machine, session⟩)
    (hawaited : ∀ tag ∈ next.waiting, ∀ place, placeOf tag = some place →
      place.1 = machine ∧ next.session = some place.2) : next.Sound c trace machine where
  session := h.session.trans hsite.session
  accounted := h.accounted
  sent job hjob := by
    rw [h.session]
    exact hsite.sent job (h.due.subset hjob)
  unstarted lease hnone := by
    have hother : started ≠ some lease := by
      intro heq
      obtain ⟨⟨job, hjob, hstart⟩, -⟩ := h.started lease heq
      obtain ⟨session, hsession, entry, hentry, hseen⟩ := hsite.begun hsent hjob hstart
      exact hnone session (h.session.trans hsession) entry hentry hseen
    refine (h.winds lease hother).untracked (hsite.unstarted lease fun session hsession => ?_)
    exact hnone session (h.session.trans hsession)
  first job hjob lease hstart := by
    have hother : started ≠ some lease := fun heq => (h.started lease heq).2 job hjob hstart
    exact (h.winds lease hother).untracked (hsite.first job (h.due.subset hjob) lease hstart)
  order := hsite.order.sublist h.due
  parted response hresponse lease hparts := by
    rcases hunread response hresponse with hold | hnew
    · obtain ⟨hgone, session, hsession, hover⟩ := hsite.parted response hold lease hparts
      exact ⟨h.gone hgone, session, h.session.trans hsession, hover⟩
    · exact hnew lease hparts
  awaited := hawaited

/-! The worker. -/

theorem Turned.still (hsite : site.Sound c trace machine) (hsession : next.session = site.session)
    (hdue : next.due.Sublist site.due) (hagent : next.agent = site.agent) : Turned site next none where
  session := hsession
  due := hdue
  accounted lease := by
    rw [hagent]
    exact hsite.accounted lease
  winds lease _ := by
    rw [hagent]
    exact .refl _
  started lease heq := by cases heq

theorem take_turned (hsite : site.Sound c trace machine) (written : Bool) : Turned site (site.take written) none := by
  unfold Site.take
  split
  · rename_i job rest hwaiting hbacklog
    split
    · refine .still hsite rfl ?_ rfl
      simp [Site.due, hbacklog]
    · refine .still hsite rfl ?_ rfl
      rw [Site.due, Site.due, hbacklog]
      exact List.Sublist.append_left (List.sublist_cons_self job rest) site.wire
  · exact .still hsite rfl (.refl _) rfl

theorem Sound.take (hsite : site.Sound c trace machine) (hsent : Throughout (Sent c) trace) (written : Bool) :
    (site.take written).Sound c trace machine := by
  refine (take_turned hsite written).sound hsite hsent ?_ ?_
  · intro response hresponse
    unfold Site.take at hresponse
    split at hresponse
    · split at hresponse <;> exact .inl hresponse
    · exact .inl hresponse
  · intro tag htag place hplace
    rw [(take_turned hsite written).session]
    unfold Site.take at htag
    split at htag
    · rename_i job rest hwaiting hbacklog
      split at htag
      · cases htag
        obtain ⟨hentry, hsession⟩ := hsite.sent job (by simp [Site.due, hbacklog])
        obtain ⟨before, rest, heq⟩ := List.append_of_mem hentry
        obtain ⟨s, hcluster, hcalls⟩ := (hsent before _ rest heq).called _ _ _ rfl
        obtain ⟨hmachine, hcurrent⟩ := place_of_call hcalls hplace
        rw [hcluster, hsession] at hcurrent
        exact ⟨hmachine, hcurrent⟩
      · rw [hwaiting] at htag
        cases htag
    · exact hsite.awaited tag htag place hplace

theorem read_turned (hsite : site.Sound c trace machine) : Turned site site.read none := by
  unfold Site.read
  split <;> exact .still hsite rfl (.refl _) rfl

theorem Sound.read (hsite : site.Sound c trace machine) (hsent : Throughout (Sent c) trace) :
    site.read.Sound c trace machine := by
  refine (read_turned hsite).sound hsite hsent ?_ ?_
  · intro response hresponse
    unfold Site.read at hresponse
    split at hresponse
    · rename_i hunread
      rw [hunread]
      exact .inl (List.mem_cons_of_mem _ hresponse)
    · exact .inl hresponse
  · intro tag htag
    unfold Site.read at htag ⊢
    split at htag
    · cases htag
    · exact hsite.awaited tag htag

theorem giveUp_turned (hsite : site.Sound c trace machine) : Turned site site.giveUp none :=
  .still hsite rfl (.refl _) rfl

theorem Sound.giveUp (hsite : site.Sound c trace machine) (hsent : Throughout (Sent c) trace) :
    site.giveUp.Sound c trace machine := by
  refine (giveUp_turned hsite).sound hsite hsent (fun _ hresponse => .inl hresponse) fun tag htag => ?_
  cases htag

/-! The agent. -/

theorem exit_turned (hsite : site.Sound c trace machine) (lease : LeaseId) : Turned site (site.exit lease) none := by
  have hwinds : ∀ other, (site.agent.slot other).Winds ((site.exit lease).agent.slot other) := by
    intro other
    by_cases hother : other = lease
    · subst hother
      refine Slot.Winds.ended ?_
      simp [LeaseAgent.slot, Executor.slot, Site.exit, LeaseAgent.exit]
      rfl
    · have hsame : (site.exit lease).agent.slot other = site.agent.slot other := by
        simp [LeaseAgent.slot, Executor.slot, Site.exit, LeaseAgent.exit, hother]
        rfl
      rw [hsame]
      exact .refl _
  refine ⟨rfl, .refl _, fun other => (hwinds other).accounted (hsite.accounted other), fun other _ => hwinds other, ?_⟩
  intro other heq
  cases heq

theorem Sound.exit (hsite : site.Sound c trace machine) (hsent : Throughout (Sent c) trace) (lease : LeaseId) :
    (site.exit lease).Sound c trace machine :=
  (exit_turned hsite lease).sound hsite hsent (fun _ hresponse => .inl hresponse) hsite.awaited

theorem Sound.job (hsite : site.Sound c trace machine) (hsent : Throughout (Sent c) trace) {job : Job}
    (hjob : job ∈ site.due) : ∃ s : NodeService, Calls s machine job.tag job.request ∧
      s.cluster.sessions[machine]? = site.session := by
  obtain ⟨hentry, hsession⟩ := hsite.sent job hjob
  obtain ⟨before, rest, heq⟩ := List.append_of_mem hentry
  obtain ⟨s, hcluster, hcalls⟩ := (hsent before _ rest heq).called _ _ _ rfl
  exact ⟨s, hcalls, by rw [hcluster, hsession]⟩

theorem serves_next {os : Answers} {job : Job} {rest : List Job} (hsite : site.Sound c trace machine)
    (hwire : site.wire = job :: rest) (hos : site.agent.Hears os job.request) :
    site.agent.Serves (site.agent.handle os job.request).2 job.request (site.agent.handle os job.request).1 :=
  LeaseAgent.handle_serves hsite.accounted hos fun lease hstart =>
    hsite.first job (by simp [Site.due, hwire]) lease hstart

theorem handle_turned {os : Answers} (hsite : site.Sound c trace machine)
    (hos : ∀ job ∈ site.wire.head?, site.agent.Hears os job.request) :
    ∃ started, Turned site (site.handle os) started := by
  unfold Site.handle
  split
  · exact ⟨none, .still hsite rfl (.refl _) rfl⟩
  · rename_i job rest hwire
    have hserves := serves_next hsite hwire (hos job (by simp [hwire]))
    have hdue : site.due = job :: (rest ++ site.backlog) := by rw [Site.due, hwire, List.cons_append]
    refine ⟨startOf job.request, rfl, ?_, hserves.accounted, hserves.winds, fun lease hstart => ⟨⟨job, ?_, hstart⟩, ?_⟩⟩
    · rw [hdue]
      exact List.sublist_cons_self _ _
    · rw [hdue]
      exact List.mem_cons_self
    · have horder := hsite.order
      rw [hdue, List.pairwise_cons] at horder
      exact fun later hlater => horder.1 later hlater lease (.inl hstart)

/-- An answer that parts with a program is given when the program is gone. -/
theorem handle_parts {os : Answers} {job : Job} {rest : List Job} (hsite : site.Sound c trace machine)
    (hsent : Throughout (Sent c) trace) (hwire : site.wire = job :: rest) (hos : site.agent.Hears os job.request)
    (hparts : Parts lease (site.agent.handle os job.request).1) : (site.handle os).Gone lease ∧
      ∃ session, site.session = some session ∧ Over trace ⟨lease, machine, session⟩ := by
  have hserves := serves_next hsite hwire hos
  have hdue : site.due = job :: (rest ++ site.backlog) := by rw [Site.due, hwire, List.cons_append]
  have hnext : site.handle os = { site with
      agent := (site.agent.handle os job.request).2, wire := rest
      unread := site.unread ++ [(site.agent.handle os job.request).1] } := by rw [Site.handle, hwire]
  have horder := hsite.order
  rw [hdue, List.pairwise_cons] at horder
  have hjob : job ∈ site.due := by
    rw [hdue]
    exact List.mem_cons_self
  obtain ⟨s, hcalls, hsession⟩ := hsite.job hsent hjob
  rw [hnext]
  have hreplies := @LeaseAgent.handle_replies os job.request site.agent
  generalize (site.agent.handle os job.request).1 = response at hparts hserves hreplies
  cases hparts with
  | stopped =>
    obtain ⟨session, epoch, hrequest⟩ := hreplies.stop rfl
    have hidle := hserves.stopped _ _ _ hrequest rfl
    refine ⟨⟨hidle, fun later hlater => horder.1 later hlater lease (.inr (by rw [hrequest]; rfl))⟩, ?_⟩
    have hentry := (hsite.sent job hjob).1
    rw [hrequest] at hcalls hentry
    obtain ⟨-, current, hcurrent⟩ := ended_of_stop hcalls
    exact ⟨current, by rw [← hsession, hcurrent], .stopped hentry rfl⟩
  | exited code =>
    have hrequest := hreplies.asked rfl
    obtain ⟨hidle, htracked⟩ := hserves.exited _ _ hrequest rfl
    refine ⟨⟨hidle, fun later hlater hstart => htracked ?_⟩, ?_⟩
    · refine hsite.first later ?_ lease hstart
      rw [hdue]
      exact List.mem_cons_of_mem _ hlater
    · by_contra hnone
      refine htracked (hsite.unstarted lease fun session hcurrent entry hentry hseen => hnone ?_)
      exact ⟨session, hcurrent, .started hentry hseen⟩

theorem Sound.handle {os : Answers} (hsite : site.Sound c trace machine) (hsent : Throughout (Sent c) trace)
    (hos : ∀ job ∈ site.wire.head?, site.agent.Hears os job.request) : (site.handle os).Sound c trace machine := by
  obtain ⟨started, hturned⟩ := handle_turned hsite hos
  refine hturned.sound hsite hsent ?_ ?_
  · intro response hresponse
    cases hwire : site.wire with
    | nil =>
      rw [Site.handle, hwire] at hresponse
      exact .inl hresponse
    | cons job rest =>
      rw [hturned.session]
      simp only [Site.handle, hwire, List.mem_append, List.mem_singleton] at hresponse
      rcases hresponse with hold | rfl
      · exact .inl hold
      · exact .inr fun lease => handle_parts hsite hsent hwire (hos job (by simp [hwire]))
  · intro tag htag
    rw [hturned.session]
    refine hsite.awaited tag ?_
    unfold Site.handle at htag
    split at htag <;> exact htag

/-! The controller. -/

theorem Sound.grow (h : site.Sound c trace machine)
    (hsession : sessionAfter c machine (trace ++ [entry]) = sessionAfter c machine trace) :
    site.Sound c (trace ++ [entry]) machine where
  session := by rw [hsession, h.session]
  accounted := h.accounted
  sent job hjob := ⟨List.mem_append_left _ (h.sent job hjob).1, (h.sent job hjob).2⟩
  unstarted lease hnone := h.unstarted lease fun session hcurrent earlier hearlier =>
    hnone session hcurrent earlier (List.mem_append_left _ hearlier)
  first := h.first
  order := h.order
  parted response hresponse lease hparts := by
    obtain ⟨hgone, session, hcurrent, hover⟩ := h.parted response hresponse lease hparts
    exact ⟨hgone, session, hcurrent, hover.kept (List.prefix_append _ _)⟩
  awaited := h.awaited

theorem due_send (job : Job) : (site.send job).due = site.due ++ [job] := by
  simp [Site.send, Site.due]

theorem start_sent {tag : Tag} {request : AgentRequest} {s : NodeService} (hsite : site.Sound c trace machine)
    (hsent : Throughout (Sent c) (trace ++ [⟨s, .dispatched machine tag request⟩]))
    (hstart : startOf request = some lease) : ∃ session, site.session = some session ∧
      (⟨s, .dispatched machine tag request⟩ : Entry).seen.starts = some ⟨lease, machine, session⟩ := by
  have hlast := hsent trace _ [] rfl
  cases request with
  | startExecution =>
    cases hstart
    refine ⟨_, ?_, rfl⟩
    rw [hsite.session, ← hlast.traced.session]
    exact (hlast.barrier _ rfl).current
  | _ => cases hstart

/-- The start of a member that is over is not sent. -/
theorem Gone.send {tag : Tag} {request : AgentRequest} {s : NodeService} (hgone : site.Gone lease)
    (hc : c.Reachable) (hsite : site.Sound c trace machine)
    (hsent : Throughout (Sent c) (trace ++ [⟨s, .dispatched machine tag request⟩]))
    (hover : ∀ session, site.session = some session → Over trace ⟨lease, machine, session⟩) :
    (site.send ⟨tag, request, s⟩).Gone lease := by
  refine ⟨hgone.idle, fun job hjob hstart => ?_⟩
  rw [due_send] at hjob
  rcases List.mem_append.mp hjob with hold | hnew
  · exact hgone.unasked job hold hstart
  · rw [List.mem_singleton.mp hnew] at hstart
    obtain ⟨session, hsession, hstarts⟩ := start_sent hsite hsent hstart
    exact not_over hc hsent hstarts (hover session hsession)

theorem Sound.send {tag : Tag} {request : AgentRequest} {s : NodeService} (hc : c.Reachable)
    (hsite : site.Sound c trace machine)
    (hsent : Throughout (Sent c) (trace ++ [⟨s, .dispatched machine tag request⟩])) :
    (site.send ⟨tag, request, s⟩).Sound c (trace ++ [⟨s, .dispatched machine tag request⟩]) machine := by
  have hgrown : site.Sound c (trace ++ [⟨s, .dispatched machine tag request⟩]) machine := by
    refine hsite.grow ?_
    rw [sessionAfter, List.foldl_append]
    rfl
  have hnone : ∀ lease, startOf request = some lease →
      ∃ session, site.session = some session ∧ ¬Over trace ⟨lease, machine, session⟩ := by
    intro lease hstart
    obtain ⟨session, hsession, hstarts⟩ := start_sent hsite hsent hstart
    exact ⟨session, hsession, not_over hc hsent hstarts⟩
  refine ⟨hgrown.session, hgrown.accounted, fun job hjob => ?_, hgrown.unstarted, fun job hjob lease hstart => ?_, ?_,
    fun response hresponse lease hparts => ?_, hgrown.awaited⟩
  · rw [due_send] at hjob
    rcases List.mem_append.mp hjob with hold | hnew
    · exact hgrown.sent job hold
    · rw [List.mem_singleton.mp hnew]
      refine ⟨List.mem_append_right _ List.mem_cons_self, ?_⟩
      exact ((hsent trace _ [] rfl).traced.session machine).trans hsite.session.symm
  · rw [due_send] at hjob
    rcases List.mem_append.mp hjob with hold | hnew
    · exact hsite.first job hold lease hstart
    · rw [List.mem_singleton.mp hnew] at hstart
      obtain ⟨session, hsession, hover⟩ := hnone lease hstart
      refine hsite.unstarted lease fun current hcurrent entry hentry hseen => hover ?_
      rw [hsession] at hcurrent
      cases hcurrent
      exact .started hentry hseen
  · rw [due_send, List.pairwise_append]
    refine ⟨hsite.order, List.pairwise_singleton _ _, fun earlier hearlier later hlater lease htouches hstart => ?_⟩
    rw [List.mem_singleton.mp hlater] at hstart
    obtain ⟨session, hsession, hover⟩ := hnone lease hstart
    refine hover ?_
    rcases htouches with hbegins | hstops
    · obtain ⟨current, hcurrent, entry, hentry, hseen⟩ := hsite.begun hsent.initial hearlier hbegins
      rw [hsession] at hcurrent
      cases hcurrent
      exact .started hentry hseen
    · obtain ⟨hentry, -⟩ := hsite.sent earlier hearlier
      cases hrequest : earlier.request with
      | stopExecution =>
        rw [hrequest] at hstops hentry
        cases hstops
        exact .stopped hentry rfl
      | _ =>
        rw [hrequest] at hstops
        cases hstops
  · obtain ⟨hgone, session, hsession, hover⟩ := hsite.parted response hresponse lease hparts
    refine ⟨hgone.send hc hsite hsent fun current hcurrent => ?_, session, hsession, hover.kept (List.prefix_append _ _)⟩
    rw [hsession] at hcurrent
    cases hcurrent
    exact hover

theorem connect_blank (cgroupRoot : Option String) (engine label : String) :
    (site.connect cgroupRoot engine label).Blank := ⟨⟨_, _, _, rfl⟩, rfl, rfl, rfl, rfl⟩

theorem Blank.register (h : site.Blank) (session : UInt64) : (site.register session).Blank :=
  ⟨h.agent, h.backlog, h.wire, h.unread, h.waiting⟩

end Site

/-! All machines. -/

namespace Plant

/-- What is held of the machines all along: what a worker posts about a member that is gone
holds as long as the session does. -/
structure Sound (c : Cluster) (trace : List Entry) (plant : Plant) : Prop where
  sites : ∀ machine, (plant.sites machine).Sound c trace machine
  answers : ∀ tag response, (tag, response) ∈ plant.answers → ∀ machine session, placeOf tag = some (machine, session) →
    ∀ lease, Parts lease response → Over trace ⟨lease, machine, session⟩ ∧
      ((plant.sites machine).session = some session → (plant.sites machine).Gone lease)
  posted : ∀ entry ∈ trace, ∀ tag response, entry.seen = .absorbed tag (.ok response) → (tag, response) ∈ plant.answers

variable {c : Cluster} {trace : List Entry} {entry : Entry} {machine : NodeId} {plant : Plant}

theorem sites_update (f : Site → Site) (machine : NodeId) : (plant.update machine f).sites machine =
    f (plant.sites machine) := Function.update_self _ _ _

theorem sites_update_ne {other : NodeId} (f : Site → Site) (h : other ≠ machine) :
    (plant.update machine f).sites other = plant.sites other := Function.update_of_ne h _ _

theorem Sound.update {f : Site → Site} {trace' : List Entry} (h : plant.Sound c trace) (hgrows : trace <+: trace')
    (hothers : ∀ other, other ≠ machine → (plant.sites other).Sound c trace' other)
    (hsite : (f (plant.sites machine)).Sound c trace' machine)
    (hgone : ∀ lease session, (f (plant.sites machine)).session = some session →
      Over trace ⟨lease, machine, session⟩ →
      ((plant.sites machine).session = some session → (plant.sites machine).Gone lease) →
      (f (plant.sites machine)).Gone lease)
    (hposted : ∀ entry ∈ trace', ∀ tag response, entry.seen = .absorbed tag (.ok response) →
      (tag, response) ∈ plant.answers) : (plant.update machine f).Sound c trace' := by
  refine ⟨fun other => ?_, fun tag response hanswer other session hplace lease hparts => ?_, hposted⟩
  · by_cases hother : other = machine
    · subst hother
      rw [sites_update]
      exact hsite
    · rw [sites_update_ne f hother]
      exact hothers other hother
  · obtain ⟨hover, hholds⟩ := h.answers tag response hanswer other session hplace lease hparts
    refine ⟨hover.kept hgrows, fun hsession => ?_⟩
    by_cases hother : other = machine
    · subst hother
      rw [sites_update] at hsession ⊢
      exact hgone lease session hsession hover hholds
    · rw [sites_update_ne f hother] at hsession ⊢
      exact hholds hsession

theorem Sound.turn {f : Site → Site} {started : Option LeaseId} (h : plant.Sound c trace)
    (hsite : (f (plant.sites machine)).Sound c trace machine)
    (hturned : Site.Turned (plant.sites machine) (f (plant.sites machine)) started) :
    (plant.update machine f).Sound c trace := by
  refine h.update List.prefix_rfl (fun other _ => h.sites other) hsite ?_ h.posted
  intro lease session hsession _ hholds
  exact hturned.gone (hholds (hturned.session.symm.trans hsession))

theorem Sound.read (h : plant.Sound c trace) (hsent : Throughout (Sent c) trace) (machine : NodeId) :
    (plant.step (.read machine)).Sound c trace := by
  have hsite := h.sites machine
  have hturned := Site.read_turned hsite
  have hread := h.turn (hsite.read hsent) hturned
  refine ⟨hread.sites, fun tag response hanswer other session hplace lease hparts => ?_, fun entry hentry tag response hseen => ?_⟩
  · rcases List.mem_append.mp hanswer with hnew | hold
    · unfold Site.answer at hnew
      split at hnew
      · rename_i found got rest hwaiting hunread
        cases List.mem_singleton.mp hnew
        obtain ⟨rfl, hsession⟩ := hsite.awaited tag hwaiting _ hplace
        obtain ⟨hleft, current, hcurrent, hover⟩ := hsite.parted response (by simp [hunread]) lease hparts
        rw [hsession] at hcurrent
        cases hcurrent
        refine ⟨hover, fun _ => ?_⟩
        change ((plant.update other Site.read).sites other).Gone lease
        rw [sites_update]
        exact hturned.gone hleft
      · cases hnew
    · exact hread.answers tag response hold other session hplace lease hparts
  · exact List.mem_append_right _ (h.posted entry hentry tag response hseen)

theorem Sound.watch (hc : c.Reachable) (h : plant.Sound c trace) (hsent : Throughout (Sent c) (trace ++ [entry]))
    (hpermits : plant.Permits (.seen entry)) : (plant.watch entry).Sound c (trace ++ [entry]) := by
  have hgrows : trace <+: trace ++ [entry] := List.prefix_append _ _
  have hposted : ∀ shown ∈ trace ++ [entry], ∀ tag response, shown.seen = .absorbed tag (.ok response) →
      (tag, response) ∈ plant.answers := by
    intro shown hshown tag response hseen
    rcases List.mem_append.mp hshown with hold | hnew
    · exact h.posted shown hold tag response hseen
    · cases List.mem_singleton.mp hnew
      simp only [Plant.Permits, hseen] at hpermits
      exact hpermits
  have hsession : ∀ machine, (∀ session, entry.seen ≠ .committed (.setAgentSession machine session)) →
      (plant.sites machine).Sound c (trace ++ [entry]) machine := by
    intro machine hnone
    refine (h.sites machine).grow ?_
    simp only [sessionAfter, List.foldl_append, List.foldl_cons, List.foldl_nil]
    split
    · rename_i host next hseen
      exact if_neg fun hhost => hnone next (by rw [hseen, hhost])
    · rfl
  have hothers : ∀ host session, entry.seen = .committed (.setAgentSession host session) → ∀ other, other ≠ host →
      (plant.sites other).Sound c (trace ++ [entry]) other := by
    intro host session hseen other hother
    refine hsession other fun next heq => hother ?_
    rw [hseen] at heq
    cases heq
    rfl
  unfold Plant.watch
  split
  · rename_i machine tag request hseen
    have hcalls : ∀ host session, entry.seen ≠ .committed (.setAgentSession host session) := by simp [hseen]
    obtain ⟨service, seen⟩ := entry
    cases hseen
    refine h.update hgrows (fun other _ => hsession other (hcalls other)) ((h.sites machine).send hc hsent) ?_ hposted
    intro lease session hcurrent hover hholds
    refine (hholds hcurrent).send hc (h.sites machine) hsent fun next hnext => ?_
    rw [show (plant.sites machine).session = some session from hcurrent] at hnext
    cases hnext
    exact hover
  · rename_i machine session hseen
    have hblank : (plant.sites machine).Blank := by simpa only [Plant.Permits, hseen] using hpermits
    have hregistered := hblank.register session
    refine h.update hgrows (hothers machine session hseen) (hregistered.sound ?_) ?_ hposted
    · simp [sessionAfter, hseen, Site.register]
    · exact fun lease _ _ _ _ => hregistered.gone lease
  · rename_i hnone hhello
    exact ⟨fun machine => hsession machine fun session => hhello machine session,
      fun tag response hanswer machine session hplace lease hparts =>
        ⟨(h.answers tag response hanswer machine session hplace lease hparts).1.kept hgrows,
          (h.answers tag response hanswer machine session hplace lease hparts).2⟩, hposted⟩

theorem Sound.step {event : Event} (hc : c.Reachable) (h : plant.Sound c trace)
    (hsent : Throughout (Sent c) (trace ++ shown [event])) (hpermits : plant.Permits event) :
    (plant.step event).Sound c (trace ++ shown [event]) := by
  cases event with
  | seen entry => exact h.watch hc hsent hpermits
  | take machine written =>
    rw [show shown [Event.take machine written] = [] from rfl, List.append_nil] at hsent ⊢
    exact h.turn ((h.sites machine).take hsent written) (Site.take_turned (h.sites machine) written)
  | handle machine os =>
    rw [show shown [Event.handle machine os] = [] from rfl, List.append_nil] at hsent ⊢
    obtain ⟨started, hturned⟩ := Site.handle_turned (h.sites machine) hpermits
    exact h.turn ((h.sites machine).handle hsent hpermits) hturned
  | read machine =>
    rw [show shown [Event.read machine] = [] from rfl, List.append_nil] at hsent ⊢
    exact h.read hsent machine
  | giveUp machine =>
    rw [show shown [Event.giveUp machine] = [] from rfl, List.append_nil] at hsent ⊢
    exact h.turn ((h.sites machine).giveUp hsent) (Site.giveUp_turned (h.sites machine))
  | exit machine lease =>
    rw [show shown [Event.exit machine lease] = [] from rfl, List.append_nil] at hsent ⊢
    exact h.turn ((h.sites machine).exit hsent lease) (Site.exit_turned (h.sites machine) lease)
  | connect machine cgroupRoot engine label =>
    rw [show shown [Event.connect machine cgroupRoot engine label] = [] from rfl, List.append_nil] at hsent ⊢
    have hblank := @Site.connect_blank (plant.sites machine) cgroupRoot engine label
    refine h.update List.prefix_rfl (fun other _ => h.sites other) (hblank.sound (h.sites machine).session) ?_ h.posted
    exact fun lease _ _ _ _ => hblank.gone lease

theorem Fresh.sound {start : Plant} (h : start.Fresh c) : start.Sound c [] where
  sites machine := (h.sites machine).sound (h.session machine)
  answers tag response hanswer := by
    rw [h.answers] at hanswer
    cases hanswer
  posted entry hentry := by cases hentry

theorem run_sound {start : Plant} (hc : c.Reachable) (hstart : start.Fresh c) {events : List Event}
    (hevents : Runs.Along step Permits start events) (hsent : Throughout (Sent c) (shown events)) :
    (start.run events).Sound c (shown events) := by
  induction events using List.reverseRecOn with
  | nil => exact hstart.sound
  | append_singleton before event ih =>
    obtain ⟨hbefore, hpermits⟩ := (Runs.along_concat before event).mp hevents
    rw [shown, List.filterMap_append] at hsent ⊢
    rw [run, Runs.run_concat]
    exact (ih hbefore hsent.initial).step hc hsent hpermits

end Plant

/-! The whole. -/

/-- The controller has an open binding released or fenced, for a lease that is over and has a
program, in a session of the machine. -/
structure GivesUp (entry : Entry) (machine : NodeId) (session : UInt64) (lease : LeaseId) : Prop where
  asked : ∃ tag phase call record, entry.seen = .dispatched machine tag (.binding phase call) ∧ phase.isTeardown ∧
    entry.service.cluster.bindings[(⟨call.binding⟩ : BindingId)]? = some record ∧ record.state.isClosed = false ∧
    record.lease = lease
  terminal : entry.service.leaseIsTerminal lease
  program : entry.service.hasProgram lease
  session : entry.service.cluster.sessions[machine]? = some session

def givesUp (entry : Entry) (machine : NodeId) (session : UInt64) (lease : LeaseId) : Bool :=
  (match entry.seen with
    | .dispatched host _ (.binding phase call) => host = machine && phase.isTeardown &&
      entry.service.cluster.bindings[(⟨call.binding⟩ : BindingId)]?.any fun record =>
        !record.state.isClosed && record.lease = lease
    | _ => false) &&
  entry.service.leaseIsTerminal lease && entry.service.hasProgram lease &&
  entry.service.cluster.sessions[machine]? = some session

theorem GivesUp.of_bool {entry : Entry} {machine : NodeId} {session : UInt64} {lease : LeaseId}
    (h : givesUp entry machine session lease) : GivesUp entry machine session lease := by
  simp only [givesUp, Bool.and_eq_true, decide_eq_true_eq] at h
  obtain ⟨⟨⟨hasked, hterminal⟩, hprogram⟩, hsession⟩ := h
  refine ⟨?_, hterminal, hprogram, hsession⟩
  split at hasked
  · rename_i host tag phase call hseen
    simp only [Bool.and_eq_true, decide_eq_true_eq, Option.any_eq_true, Bool.not_eq_true'] at hasked
    obtain ⟨⟨rfl, hteardown⟩, record, hrecord, hopen, hlease⟩ := hasked
    exact ⟨tag, phase, call, record, hseen, hteardown, hrecord, hopen, hlease⟩
  · cases hasked

theorem GivesUp.shown {before : List Entry} {c : Cluster} {entry : Entry} {machine : NodeId} {session : UInt64}
    {lease : LeaseId} (h : GivesUp entry machine session lease) (hsent : Sent c before entry) :
    StopProof before lease machine session := by
  obtain ⟨tag, phase, call, record, hseen, hteardown, hrecord, hopen, rfl⟩ := h.asked
  exact (hsent.first machine tag phase call record session hseen hteardown hrecord hopen h.terminal h.program
    h.session).2

namespace Sample
open Process.Sample

/-- A system that does as it is asked. -/
def calm : Answers where
  logFile := .ok ()
  createGroup := .ok ()
  enforceDevices := .ok ()
  spawn := .ok ()
  killGroup := .ok ()
  tryWait := .ok none
  kill := .ok ()
  wait := .ok ()
  run := .ok (true, "")
  stop := .ok (true, "")
  remove := .ok (true, "")
  inspectRunning := .ok true
  inspectExitCode := none

theorem calm_honest (slot : Slot) : calm.Honest slot := ⟨by simp [calm], by simp [calm], by simp [calm], by simp [calm]⟩

/-- A program is started, revoked and stopped, and its device is fenced. -/
def stopped : List Operation :=
  [.register twoCpus capable,
   .submit (program 1 [⟨.cpu, qty .count 1, []⟩]) 1,
   .admitOne .default,
   .post (.binding 1 1 1 .prepare) (.ok (.prepared 1 1)),
   .drive [],
   .post (.binding 1 1 1 .activate) (.ok (.activated 1)),
   .drive [],
   .post (.executionStart 1 1 1) (.ok (.executionStarted 1)),
   .drive [],
   .revoke 1,
   .post (.executionStop 1 1 1) (.ok (.executionStopped 1)),
   .drive []]

@[irreducible] def trace : List Entry := ((Process.boot .new .new false).run stopped).world.trace

/-- A call is handled and answered at once. -/
def served (entry : Entry) : List Event :=
  match entry.seen with
  | .dispatched machine _ _ => [.seen entry, .take machine true, .handle machine calm, .read machine]
  | _ => [.seen entry]

/-- The machine registers, and serves what it is asked. -/
def history : List Event := (trace.take 2).map .seen ++ (trace.drop 2).flatMap served

def fleet : Plant := ⟨fun _ => ⟨.new (.new none "" ""), none, [], [], [], none⟩, []⟩

theorem fleet_fresh : fleet.Fresh .new := ⟨fun _ => ⟨⟨_, _, _, rfl⟩, rfl, rfl, rfl, rfl⟩, fun _ => by simp [fleet, Cluster.new], rfl⟩

theorem shown_history : Plant.shown history = trace := by
  have hserved : ∀ entries : List Entry, Plant.shown (entries.flatMap served) = entries := by
    intro entries
    induction entries with
    | nil => rfl
    | cons entry rest ih =>
      rw [List.flatMap_cons, Plant.shown, List.filterMap_append, ← Plant.shown, ← Plant.shown, ih]
      unfold served
      split <;> rfl
  have hseen : ∀ entries : List Entry, Plant.shown (entries.map .seen) = entries := by
    intro entries
    simp [Plant.shown, List.filterMap_map]
  rw [history, Plant.shown, List.filterMap_append, ← Plant.shown, ← Plant.shown, hserved, hseen, List.take_append_drop]

def commits (entry : Entry) : Bool :=
  match entry.seen with
  | .committed _ => true
  | _ => false

theorem quiet_permitted {plant : Plant} (hblank : ∀ machine, (plant.sites machine).Blank) {entries : List Entry}
    (h : ∀ entry ∈ entries, commits entry) :
    Runs.Along Plant.step Plant.Permits plant (entries.map .seen) := by
  induction entries generalizing plant with
  | nil => trivial
  | cons entry rest ih =>
    obtain ⟨command, hseen⟩ : ∃ command, entry.seen = .committed command := by
      have hcommits := h entry List.mem_cons_self
      unfold commits at hcommits
      split at hcommits
      · exact ⟨_, by assumption⟩
      · cases hcommits
    refine ⟨?_, ih (fun machine => ?_) fun other hother => h other (List.mem_cons_of_mem _ hother)⟩
    · simp only [Plant.Permits, hseen]
      split
      · rename_i heq
        cases heq
      · exact hblank _
      · trivial
    · simp only [Plant.step, Plant.watch, hseen]
      split
      · rename_i heq
        cases heq
      · rename_i host session heq
        by_cases hhost : machine = host
        · subst hhost
          rw [Plant.sites_update]
          exact (hblank machine).register session
        · rw [Plant.sites_update_ne _ hhost]
          exact hblank machine
      · exact hblank machine

/-- The answer was posted, and the system does as it is asked. -/
def ready (plant : Plant) : Event → Bool
  | .seen entry =>
    match entry.seen with
    | .absorbed tag (.ok response) => (tag, response) ∈ plant.answers
    | .committed (.setAgentSession _ _) => false
    | _ => true
  | .handle _ os => os = calm
  | _ => true

theorem ready_permits (plant : Plant) (event : Event) (h : ready plant event) : plant.Permits event := by
  cases event with
  | seen entry =>
    simp only [ready] at h
    simp only [Plant.Permits]
    split
    · rename_i hseen
      simpa [hseen] using h
    · rename_i hseen
      simp [hseen] at h
    · trivial
  | handle machine os =>
    have hcalm : os = calm := of_decide_eq_true h
    subst hcalm
    exact fun job _ lease _ => calm_honest _
  | take | read | giveUp | exit | connect => trivial

theorem history_permitted : Runs.Along Plant.step Plant.Permits fleet history := by
  rw [history, Runs.along_append]
  constructor
  · exact quiet_permitted fleet_fresh.sites (by decide +kernel)
  · refine Runs.along_mono ready_permits ?_
    decide +kernel

end Sample

end Archon.Agent
