import Archon.Node.Starting
import Archon.Node.Stopping

/-! The trace accounts for the cluster: from one entry to the next the cluster takes the
command that was shown, or the time, and nothing else. -/
namespace Archon.Node
open Archon.Kernel Fallible Service

/-- The trace leads the cluster from `c` to where it is. -/
inductive Traced (c : Cluster) : List Entry → Cluster → Prop where
  | nil : Traced c [] c
  | clock {now : Cluster} (h : Traced c trace now) (time : UInt64) : Traced c trace (now.setNow time)
  | seen (h : Traced c trace entry.service.cluster) (hseen : ∀ command, entry.seen ≠ .committed command) :
      Traced c (trace ++ [entry]) entry.service.cluster
  | committed {trace : List Entry} {entry : Entry} {command : Command} {effects : List Effect} {next : Cluster}
      (h : Traced c trace entry.service.cluster) (hseen : entry.seen = .committed command)
      (happly : Cluster.apply command entry.service.cluster = .ok effects next) :
      Traced c (trace ++ [entry]) next

/-- The lease is over. -/
def Ended (c : Cluster) (lease : LeaseId) : Prop :=
  ∃ record, c.leases[lease]? = some record ∧ isTerminal record.state

/-- The session of a machine after what the trace shows. -/
def sessionAfter (c : Cluster) (machine : NodeId) (trace : List Entry) : Option UInt64 :=
  trace.foldl (fun session entry => match entry.seen with
    | .committed (.setAgentSession host next) => if host = machine then some next else session
    | _ => session) c.sessions[machine]?

variable {licence : Licence} {own : Bool} {w u : World} {c now : Cluster} {trace : List Entry} {lease : LeaseId}
  {machine : NodeId}

theorem leaseIsTerminal_iff {s : NodeService} : s.leaseIsTerminal lease ↔ Ended s.cluster lease := by
  simp [NodeService.leaseIsTerminal, Ended, Option.any_eq_true]

theorem Ended.not_active {s : NodeService} (h : Ended s.cluster lease) : s.leaseIsActive lease = false := by
  obtain ⟨record, hrecord, hterminal⟩ := h
  rw [NodeService.leaseIsActive, hrecord, Option.any_some, decide_eq_false_iff_not]
  intro hactive
  rw [hactive] at hterminal
  cases hterminal

theorem isTerminal_iff {state : LeaseState} : isTerminal state ↔ state.isSettled ∧ state.isLive = false := by
  cases state <;> decide

/-- What is over stays over. -/
theorem Ended.turns {next : Cluster} (h : Ended now lease) (hturns : Turns now next) (hnow : now.Reachable) :
    Ended next lease := by
  obtain ⟨record, hrecord, hterminal⟩ := h
  obtain ⟨hsettled, hdead⟩ := isTerminal_iff.mp hterminal
  obtain ⟨after, hafter, hstill, hstays⟩ := hturns.settled hnow hrecord hsettled
  exact ⟨after, hafter, isTerminal_iff.mpr ⟨hstill, hstays hdead⟩⟩

namespace Traced

theorem reachable (h : Traced c trace now) (hc : c.Reachable) : now.Reachable := by
  induction h with
  | nil => exact hc
  | clock _ time ih => exact Cluster.Reachable.take ih (.setNow time)
  | seen _ _ ih => exact ih
  | committed _ _ happly ih => exact Cluster.Reachable.apply_ok ih happly

/-- A lease that was over at an entry is over now. -/
theorem ended (h : Traced c trace now) (hc : c.Reachable) {entry : Entry} (hentry : entry ∈ trace)
    (hterminal : entry.service.leaseIsTerminal lease) : Ended now lease := by
  induction h with
  | nil => cases hentry
  | clock hbefore time ih => exact (ih hentry).turns (.clock time rfl) (hbefore.reachable hc)
  | seen _ _ ih =>
    rcases List.mem_append.mp hentry with hold | hlast
    · exact ih hold
    · rw [List.mem_singleton.mp hlast] at hterminal
      exact leaseIsTerminal_iff.mp hterminal
  | committed hbefore _ happly ih =>
    refine Ended.turns ?_ (.applied _ _ happly) (hbefore.reachable hc)
    rcases List.mem_append.mp hentry with hold | hlast
    · exact ih hold
    · rw [List.mem_singleton.mp hlast] at hterminal
      exact leaseIsTerminal_iff.mp hterminal

theorem session (h : Traced c trace now) (machine : NodeId) :
    now.sessions[machine]? = sessionAfter c machine trace := by
  induction h with
  | nil => rfl
  | clock _ _ ih => exact ih
  | @seen trace entry _ hseen ih =>
    rw [sessionAfter, List.foldl_append, ← sessionAfter, ← ih, List.foldl_cons, List.foldl_nil]
    split
    · rename_i hcommitted
      exact absurd hcommitted (hseen _)
    · rfl
  | @committed trace entry command effects next _ hseen happly ih =>
    rw [sessionAfter, List.foldl_append, ← sessionAfter, ← ih, List.foldl_cons, List.foldl_nil, hseen]
    cases hhello : isHello command with
    | false =>
      rw [Cluster.sessions_of_apply hhello happly]
      cases command with
      | setAgentSession => cases hhello
      | _ => rfl
    | true =>
      cases command with
      | setAgentSession host session =>
        obtain ⟨rfl, -⟩ := Cluster.sessions_of_hello happly
        rw [OrdMap.get_insert]
      | _ => cases hhello

/-- Every entry shows the cluster that the trace before it leads to. -/
theorem throughout (h : Traced c trace now) :
    Throughout (fun before entry => Traced c before entry.service.cluster) trace := by
  induction h with
  | nil => exact .nil
  | clock _ _ ih => exact ih
  | seen hbefore _ ih => exact ih.concat hbefore
  | committed hbefore _ _ ih => exact ih.concat hbefore

theorem commit {command : Command} {effects : List Effect} {cluster : Cluster}
    (h : Traced c w.trace w.service.cluster) (happly : Cluster.apply command w.service.cluster = .ok effects cluster) :
    Traced c (w.commit command effects cluster).trace (w.commit command effects cluster).service.cluster := by
  have hcommitted : Traced c (w.trace ++ [⟨w.service, .committed command⟩]) cluster := .committed h rfl happly
  rw [trace_commit_eq, service_commit]
  split
  · rw [List.append_cons]
    have hpersisted : ∀ applied, (⟨{ w.service with cluster }, .persisted (some command)⟩ : Entry).seen ≠ .committed applied := by
      simp
    exact .seen hcommitted hpersisted
  · exact hcommitted

end Traced

/-- The trace and the cluster of a world. -/
def World.Accounted (c : Cluster) (w : World) : Prop := Traced c w.trace w.service.cluster

theorem World.Accounted.observed {w : World} {entry : Entry} (h : w.Accounted c)
    (htrace : u.trace = w.trace ++ [entry]) (hentry : entry.service.cluster = w.service.cluster)
    (hseen : ∀ command, entry.seen ≠ .committed command) (hcluster : u.service.cluster = w.service.cluster) :
    u.Accounted c := by
  unfold World.Accounted at h ⊢
  rw [htrace, hcluster, ← hentry]
  exact .seen (by rw [hentry]; exact h) hseen

theorem Move.accounted (h : Move own w u) (hground : Grounded w) (hw : w.Accounted c) : u.Accounted c := by
  cases h with
  | commit _ happly => exact Traced.commit hw happly
  | hello _ happly => exact Traced.commit hw happly
  | refuse happly =>
    obtain rfl := Cluster.Reachable.refused hground happly
    exact hw
  | clock time => exact Traced.clock hw time
  | call =>
    unfold World.call
    split
    · exact hw.observed rfl rfl (by simp) rfl
    · exact hw
  | answerStart lease machine session reply =>
    have hanswer : (w.answer (.executionStart lease machine session) reply).Accounted c :=
      hw.observed rfl rfl (by simp) rfl
    refine answerStart_cases (w := w) (motive := World.Accounted c) lease machine session reply ?_ ?_ ?_
    · exact fun _ => hanswer
    · exact fun _ _ _ happly => Traced.commit hanswer happly
    · intro reason e left happly
      obtain rfl := Cluster.Reachable.refused hground happly
      exact hanswer
  | persist | answer | pop | drain | report | recover | join | recovered =>
    exact hw.observed rfl rfl (by simp) rfl
  | hold | rehold | activate | adopt | start | stop | await | status | endpoints | stray | closed
  | session | inert => exact hw

theorem Stir.accounted (h : Stir licence w u) (hground : Grounded w) (hw : w.Accounted c) : u.Accounted c := by
  cases h with
  | move hmove => exact hmove.accounted hground hw
  | opening _ _ happly => exact Traced.commit hw happly
  | grant _ _ _ happly => exact Traced.commit (w := w.setState _) hw happly
  | deny _ _ _ happly =>
    obtain rfl := Cluster.Reachable.refused hground happly
    exact hw
  | enqueue | enroll | draw | restart | cancel | enlist => exact hw.observed rfl rfl (by simp) rfl
  | bind | tally | giveUp | regroup | restore => exact hw

/-! Calls. -/

/-- A call was sent after the checks of its kind. -/
def Called (entry : Entry) : Prop :=
  ∀ machine tag request, entry.seen = .dispatched machine tag request →
    ∃ s : NodeService, s.cluster = entry.service.cluster ∧ Calls s machine tag request

theorem Stir.called (h : Stir licence w u) (hw : Throughout (fun _ entry => Called entry) w.trace) :
    Throughout (fun _ entry => Called entry) u.trace := by
  refine h.adds.throughout ?_ ?_ ?_ hw
  · intro before entry hplain machine tag request hseen
    rw [hseen] at hplain
    cases hplain
  · rintro machine tag request hcalls other found asked hseen
    cases hseen
    exact ⟨w.service, rfl, hcalls⟩
  · rintro event - machine tag request hseen
    cases hseen

/-- What is held of the calls of a controller that starts with the cluster. -/
structure Sends (c : Cluster) (w : World) : Prop where
  accounted : w.Accounted c
  called : Throughout (fun _ entry => Called entry) w.trace
  starts : Starts w
  stops : Stops w

/-- An entry that shows a call shows what was checked before. -/
structure Sent (c : Cluster) (before : List Entry) (entry : Entry) : Prop where
  traced : Traced c before entry.service.cluster
  called : Called entry
  barrier : StartBarrier before entry
  first : StopFirst before entry

theorem Sends.sent (h : Sends c w) : Throughout (Sent c) w.trace := fun before entry rest heq =>
  ⟨h.accounted.throughout before entry rest heq, h.called before entry rest heq,
    h.starts.barrier before entry rest heq, h.stops.first before entry rest heq⟩

theorem Stir.sends (hown : licence.sessions = false) (hrestores : licence.restores = false)
    (h : Stir licence w u) (hw : Kept w) (hsends : Sends c w) : Sends c u :=
  ⟨h.accounted hw.now.grounded hsends.accounted, h.called hsends.called, h.starts hrestores hw hsends.starts,
    h.stops hown hw hsends.stops⟩

namespace Process

/-- Everything may come from outside but a session, and nothing is restored. -/
def lasting : Licence := ⟨false, true, true, true, false, true⟩

theorem permits_lasting {start : Process} {operations : List Operation} (h : OwnSessions operations)
    (hrestore : .restoreLast ∉ operations) : Permits lasting start operations := by
  refine (Runs.along_iff_forall operations).mpr fun before operation hbefore => ?_
  have hsessions : Permits ownSessions start operations := permits_ownSessions h
  have hown := (Runs.along_iff_forall operations).mp hsessions before operation hbefore
  cases operation with
  | restoreLast => exact absurd (hbefore.subset (by simp)) hrestore
  | _ => exact hown

theorem sends_boot (cluster : Cluster) (state : ServiceState) (durableSink : Bool) :
    Sends cluster (boot cluster state durableSink).world := by
  refine ⟨.nil, .nil, ⟨awaited_boot cluster state durableSink, fun generation hgeneration => ?_,
    fun entry hentry => ?_, .nil⟩, ⟨evident_boot cluster state durableSink, fun member hmember => ?_, .nil⟩⟩
  · cases hgeneration
  · cases hentry
  · cases hmember

/-- In every run each call follows the checks of its kind. -/
theorem run_sent {cluster : Cluster} {state : ServiceState} (hcluster : cluster.Reachable)
    (hstate : Numbered state) (durableSink : Bool) {operations : List Operation} (h : OwnSessions operations)
    (hrestore : .restoreLast ∉ operations) :
    Throughout (Sent cluster) ((boot cluster state durableSink).run operations).world.trace :=
  (run_stirs (kept_boot hcluster hstate durableSink) (sends_boot cluster state durableSink)
    (fun _ _ hw hstir hsends => hstir.sends rfl rfl hw hsends) (permits_lasting h hrestore)).2.sent

end Process
end Archon.Node
