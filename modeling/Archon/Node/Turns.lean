import Archon.Node.Answers

/-! Enumerations, single answers, and the operations that poll and end leases, as
sequences of moves. -/
namespace Archon.Node.Service
open Archon.Kernel Fallible

variable {own : Bool} {w : World} {α β : Type}

/-! Enumerations. -/

/-- Sessions stay, and no binding opens. -/
structure Fencing (w u : World) : Prop where
  sessions : u.service.cluster.sessions = w.service.cluster.sessions
  shut : ∀ id, w.service.cluster.NotOpen id → u.service.cluster.NotOpen id
  grounded : Grounded w → Grounded u

theorem Fencing.of_eq {u : World} (h : u.service.cluster = w.service.cluster) : Fencing w u := by
  refine ⟨by rw [h], fun id hid => by rwa [h], fun hw => ?_⟩
  unfold Grounded at hw ⊢
  rwa [h]

instance : Std.Refl Fencing := ⟨fun _ => .of_eq rfl⟩

instance : IsTrans World Fencing := by
  constructor
  intro w t u h h'
  exact ⟨h'.sessions.trans h.sessions, fun id hid => h'.shut id (h.shut id hid),
    fun hw => h'.grounded (h.grounded hw)⟩

theorem fencing_grounded (w u : World) (h : Fencing w u) (hw : Grounded w) : Grounded u := h.grounded hw

/-- The commands an enumeration asks for. -/
def fencesKernel : Command → Bool
  | .fenceBinding _ | .recordBindingFenced _ _ _ | .advanceEndpointFence _ _ _ => true
  | _ => false

theorem commitLenient_fences {command : Command} (h : fencesKernel command) :
    Guided Grounded Fencing (commitLenient command) := by
  intro w hw
  unfold Follows
  rw [after_commitLenient]
  refine .single ?_
  cases happly : Cluster.apply command w.service.cluster with
  | error e left =>
    rw [after_of_error (commit_run_error happly)]
    obtain rfl := Cluster.Reachable.refused hw happly
    exact .of_eq rfl
  | ok effects cluster =>
    have hgrounded := @commit_grounded w command hw
    rw [after_of_ok (commit_run_ok happly)] at hgrounded ⊢
    refine ⟨?_, fun id hid => ?_, fun _ => hgrounded⟩
    · rw [service_commit]
      exact Cluster.sessions_of_apply (by cases command <;> first | rfl | cases h) happly
    · rw [service_commit]
      refine hid.of_apply ?_ happly
      rintro lease node provider scope rfl
      cases h

theorem closeStray_fences (machine : NodeId) (session : UInt64) (id : BindingId)
    (endpoint : EnumeratedEndpoint) :
    Guided Grounded Fencing (closeStray machine session id endpoint) := by
  unfold closeStray
  refine Guided.bind fencing_grounded (.of_moving fun _ => .single (.of_eq rfl)) fun _ => ?_
  refine Guided.bind fencing_grounded (commitLenient_fences rfl) fun _ => ?_
  intro w hw
  refine follows_self ?_
  split
  · exact follows_update_bind (.of_eq rfl) ((dispatch_called _ _ _ _).weaken fun _ _ hcalled =>
      .of_eq hcalled.clusterKept)
  · exact .pure ()

theorem closeStray_follows {machine : NodeId} {session : UInt64} {id : BindingId}
    {endpoint : EnumeratedEndpoint} (hw : Grounded w) (hshut : w.service.cluster.NotOpen id) :
    Follows (Move own) w (closeStray machine session id endpoint) := by
  unfold closeStray
  refine (report_moving (by simp) w).bind fun _ t ht => ?_
  have hreport : Fencing w t := .of_eq ((report_clusterKept _ w).ok_related ht)
  refine (commitLenient_moving rfl t).bind fun _ u hu => follows_self ?_
  have hcommit : Fencing t u := (commitLenient_fences rfl t (hreport.grounded hw)).ok_related hu
  split
  · rename_i hfresh
    refine follows_update_bind (.stray machine _) (dispatch_follows ?_)
    cases hrecovery : u.service.recoveringMachines[machine]? with
    | none => simp [hrecovery] at hfresh
    | some recovery =>
      have hasked : (u.service.recoveringMachines.modify machine fun recovery => { recovery with
          strayFences := insert (strayTag machine session id endpoint) recovery.strayFences })[machine]? =
          some { recovery with
            strayFences := insert (strayTag machine session id endpoint) recovery.strayFences } := by
        rw [OrdMap.get_modify, if_pos rfl, hrecovery]
        rfl
      exact .stray (hcommit.shut id (hreport.shut id hshut)) rfl hasked (Finset.mem_insert_self _ _)
  · exact .pure ()

/-- A report that asks for a stray close speaks of a binding that is not open. -/
theorem notOpen_of_stray {s : NodeService} {machine : NodeId} {reported endpoint : EnumeratedEndpoint}
    {id : BindingId} (h : dispose s machine reported = .stray id endpoint) : s.cluster.NotOpen id := by
  unfold dispose at h
  split at h
  · cases h
  · rename_i number hnumber
    simp only at h
    split at h
    · rename_i hunknown
      split at h
      · cases h
        intro record hrecord
        rw [hunknown] at hrecord
        cases hrecord
      · cases h
    · rename_i record hrecord
      split at h
      · split at h
        · cases h
        · split at h <;> cases h
      · rename_i hclosed
        split at h
        · cases h
          intro found hfound
          rw [hrecord] at hfound
          cases hfound
          simpa using hclosed
        · cases h

theorem reportFenced_moving (machine : NodeId) (disposition : Disposition) :
    Moving (Move own) (reportFenced machine disposition) := by
  cases disposition with
  | fence => exact report_moving (by simp)
  | _ => exact .pure ()

theorem reportFenced_fences (machine : NodeId) (disposition : Disposition) :
    Guided Grounded Fencing (reportFenced machine disposition) := by
  cases disposition with
  | fence => exact .of_moving fun w => (report_clusterKept _ w).weaken fun _ _ => Fencing.of_eq
  | _ => exact .pure ()

theorem fenceOpen_moving (disposition : Disposition) : Moving (Move own) (fenceOpen disposition) := by
  cases disposition with
  | fence => exact commitLenient_moving rfl
  | _ => exact .pure ()

theorem fenceOpen_fences (disposition : Disposition) :
    Guided Grounded Fencing (fenceOpen disposition) := by
  cases disposition with
  | fence => exact commitLenient_fences rfl
  | _ => exact .pure ()

theorem recordClosed_moving (session : UInt64) (disposition : Disposition) :
    Moving (Move own) (recordClosed session disposition) := by
  cases disposition with
  | closed => exact commitLenient_moving rfl
  | _ => exact .pure ()

theorem recordClosed_fences (session : UInt64) (disposition : Disposition) :
    Guided Grounded Fencing (recordClosed session disposition) := by
  cases disposition with
  | closed => exact commitLenient_fences rfl
  | _ => exact .pure ()

theorem closeStrays_fences (machine : NodeId) (session : UInt64) (disposition : Disposition) :
    Guided Grounded Fencing (closeStrays machine session disposition) := by
  cases disposition with
  | stray => exact closeStray_fences _ _ _ _
  | _ => exact .pure ()

theorem closeStrays_follows {machine : NodeId} {session : UInt64} {disposition : Disposition}
    (hw : Grounded w)
    (h : ∀ id endpoint, disposition = .stray id endpoint → w.service.cluster.NotOpen id) :
    Follows (Move own) w (closeStrays machine session disposition) := by
  cases disposition with
  | stray id endpoint => exact closeStray_follows hw (h id endpoint rfl)
  | _ => exact .pure ()

theorem absorbEnumeration_fences (machine : NodeId) (endpoints : List EnumeratedEndpoint) :
    Guided Grounded Fencing (absorbEnumeration machine endpoints) := by
  intro w hw
  unfold absorbEnumeration
  refine follows_self ?_
  split
  · exact .pure _
  · rename_i session hsession
    refine .ite (fun _ => .pure _) fun _ => ?_
    refine Guided.bind fencing_grounded (Guided.forM fencing_grounded fun _ _ =>
      reportFenced_fences _ _) (fun _ => ?_) w hw
    refine Guided.bind fencing_grounded (Guided.forM fencing_grounded fun _ _ => fenceOpen_fences _)
      fun _ => ?_
    refine Guided.bind fencing_grounded (Guided.forM fencing_grounded fun _ _ =>
      recordClosed_fences _ _) fun _ => ?_
    exact Guided.bind fencing_grounded (Guided.forM fencing_grounded fun _ _ =>
      closeStrays_fences _ _ _) fun _ => .pure _

theorem absorbEnumeration_follows (machine : NodeId) (endpoints : List EnumeratedEndpoint) :
    Guided Grounded (Move own) (absorbEnumeration machine endpoints) := by
  intro w hw
  unfold absorbEnumeration
  refine follows_self ?_
  split
  · exact .pure _
  · rename_i session hsession
    refine .ite (fun _ => .pure _) fun _ => ?_
    refine (Moving.forM (fun _ _ => reportFenced_moving _ _) w).bind fun _ t ht => ?_
    refine (Moving.forM (fun _ _ => fenceOpen_moving _) t).bind fun _ u hu => ?_
    refine (Moving.forM (fun _ _ => recordClosed_moving _ _) u).bind fun _ v hv => ?_
    have htf : Fencing w t :=
      (Guided.forM fencing_grounded (fun _ _ => reportFenced_fences _ _) w hw).ok_related ht
    have huf : Fencing t u := (Guided.forM fencing_grounded (fun _ _ => fenceOpen_fences _) t
      (htf.grounded hw)).ok_related hu
    have hvf : Fencing u v := (Guided.forM fencing_grounded (fun _ _ => recordClosed_fences _ _) u
      (huf.grounded (htf.grounded hw))).ok_related hv
    have hshut : Fencing w v := IsTrans.trans _ _ _ (IsTrans.trans _ _ _ htf huf) hvf
    -- the strays were selected in this cluster, and none of them has opened since
    refine (@Follows.forM _ _ _ _ _ (Fencing w) _ _ hshut ?_ ?_).bind fun _ _ _ => .pure _
    · intro disposition hdisposition x hx
      refine closeStrays_follows (hx.grounded hw) fun id endpoint hstray => ?_
      obtain ⟨reported, -, hreported⟩ := List.mem_map.mp hdisposition
      exact hx.shut id (notOpen_of_stray (hreported.trans hstray))
    · intro disposition _ x hx _ y hy
      exact IsTrans.trans _ _ _ hx
        ((closeStrays_fences machine session disposition x (hx.grounded hw)).ok_related hy)

/-! One answer. -/

theorem tryCommitLenient_true {command : Command} {u : World}
    (h : tryCommitLenient command w = .ok true u) : ∃ effects cluster,
      Cluster.apply command w.service.cluster = .ok effects cluster ∧
        u = w.commit command effects cluster := by
  unfold tryCommitLenient at h
  obtain ⟨result, hresult, haccepted⟩ := map_ok.mp h
  cases result with
  | none => cases haccepted
  | some a =>
    have hcommit := tolerate_some.mp hresult
    cases happly : Cluster.apply command w.service.cluster with
    | error e left =>
      rw [commit_run_error happly] at hcommit
      cases hcommit
    | ok effects cluster =>
      rw [commit_run_ok happly] at hcommit
      cases hcommit
      exact ⟨effects, cluster, rfl, rfl⟩

theorem absorbBinding_follows {id : BindingId} {session fence : UInt64} {phase : EffectPhase}
    {reply : AgentReply} {before : List Entry} {taken : Entry} (htrace : w.trace = before ++ [taken])
    (htaken : taken.seen = .absorbed (.binding id session fence phase) reply) :
    Follows (Move own) w (absorbBinding id session fence reply) := by
  unfold absorbBinding
  refine follows_self ?_
  split
  · refine (commitLenient_moving rfl w).bind fun _ t _ => ?_
    split
    · exact maybeActivate_moving _ t
    · exact .pure ()
  · rename_i got
    refine (tryCommitLenient_moving rfl w).bind fun accepted t ht => .ite (fun haccepted => ?_)
      fun _ => .pure ()
    subst haccepted
    obtain ⟨effects, cluster, happly, rfl⟩ := tryCommitLenient_true ht
    have htrace' := trace_commit_eq (w := w) (.recordBindingActive id session fence) effects cluster
    rw [htrace, List.append_assoc] at htrace'
    refine follows_update_bind (.activate ⟨before, taken, _, _, phase, got, htrace', htaken, rfl⟩) ?_
    split
    · exact maybeStartExecutions_moving _ _
    · exact .pure ()
  · exact commitLenient_moving rfl w
  · exact commitLenient_moving rfl w
  · exact commitLenient_moving rfl w
  · exact .pure ()

theorem absorbStop_follows {lease : LeaseId} {machine : NodeId} {session : UInt64}
    {reply : AgentReply} (h : w.Saw (.absorbed (.executionStop lease machine session) reply)) :
    Follows (Move own) w (absorbStop lease machine session reply) := by
  obtain ⟨entry, hentry, hseen⟩ := h
  unfold absorbStop
  refine follows_self (.ite (fun _ => ?_) fun _ => .pure ())
  split
  · refine .ite (fun hgot => ?_) fun _ => .pure ()
    rw [hgot] at hseen
    exact follows_update_bind (.stop (.answered hentry hseen)) (driveHeldEffects_moving _)
  · exact .pure ()

theorem absorbStatus_follows {lease : LeaseId} {machine : NodeId} {session : UInt64}
    {reply : AgentReply} (hw : Grounded w) (h : w.Saw (.absorbed (.status lease machine session) reply))
    (hsession : w.service.cluster.sessions[machine]? = some session) :
    Follows (Move own) w (absorbStatus lease machine reply) := by
  unfold absorbStatus
  refine follows_self (.ite (fun hawaited => ?_) fun _ => ?_)
  · exact follows_update_bind (.status h hsession hawaited) (resolveMachineRecovery_follows machine _ hw)
  · split
    · exact .pure _
    · exact follows_update_bind (.inert _ _ _ _ _ _) (resolveObservedCompletion_moving lease _)

/-- A report that is taken up agreed with the records when it arrived. -/
theorem absorbEnumeration_true {machine : NodeId} {endpoints : List EnumeratedEndpoint} {u : World}
    (h : absorbEnumeration machine endpoints w = .ok true u) :
    endpoints.any (inconsistent w.service machine) = false := by
  unfold absorbEnumeration at h
  rw [self_bind_run] at h
  cases hsession : w.service.cluster.sessions[machine]? with
  | none =>
    rw [hsession] at h
    cases h
  | some session =>
    rw [hsession] at h
    rcases ite_ok.mp h with ⟨-, hrefused⟩ | ⟨hconsistent, -⟩
    · cases hrefused
    · exact Bool.eq_false_iff.mpr hconsistent

theorem absorbEnumerate_follows {machine : NodeId} {session : UInt64} {reply : AgentReply}
    {entry : Entry} (hw : Grounded w) (hentry : entry ∈ w.trace)
    (hseen : entry.seen = .absorbed (.enumerate machine session) reply)
    (hcluster : entry.service.cluster = w.service.cluster)
    (hsession : w.service.cluster.sessions[machine]? = some session) :
    Follows (Move own) w (absorbEnumerate machine reply) := by
  unfold absorbEnumerate
  split
  · rename_i endpoints
    refine (absorbEnumeration_follows machine endpoints w hw).bind fun accepted u hu => ?_
    have hfencing := (absorbEnumeration_fences machine endpoints w hw).ok_related hu
    have hgrows : TraceGrows w u :=
      ((@absorbEnumeration_follows own machine endpoints w hw).weaken
        fun _ _ => Move.traceGrows).ok_related hu
    have hgrounded := hfencing.grounded hw
    cases accepted with
    | false => exact resolveMachineRecovery_follows machine u hgrounded
    | true =>
      have hconsistent : endpoints.any (inconsistent entry.service machine) = false := by
        have h := absorbEnumeration_true hu
        unfold inconsistent at h ⊢
        rw [hcluster]
        exact h
      refine follows_update_bind (.endpoints (hgrows.subset hentry) hseen hconsistent ?_)
        (resolveMachineRecovery_follows machine _ hgrounded)
      rw [hfencing.sessions]
      exact hsession
  · exact .pure _

theorem absorbStrayFence_follows {machine node : NodeId} {session fence : UInt64}
    {provider : ProviderId} {scope : BindingScope} {id : BindingId} {reply : AgentReply}
    {entry : Entry} (hw : Grounded w) (hentry : w.trace.getLast? = some entry)
    (hseen : entry.seen = .absorbed (.strayFence machine session node provider scope id fence) reply) :
    Follows (Move own) w (absorbStrayFence machine id
      (.strayFence machine session node provider scope id fence) reply) := by
  unfold absorbStrayFence
  split
  · refine .ite (fun hgot => ?_) fun _ => .pure _
    rw [hgot] at hseen
    exact follows_update_bind (.closed hentry hseen) (resolveMachineRecovery_follows machine _ hw)
  · exact .pure _

theorem absorbProbe_moving (machine : NodeId) (reply : AgentReply) :
    Moving (Move own) (absorbProbe machine reply) := by
  cases reply with
  | error e =>
    intro w
    unfold absorbProbe
    exact follows_update (.inert _ _ _ _ _ _)
  | ok answer => exact .pure ()

theorem session_of_fresh {s : NodeService} {tag : Tag} {machine : NodeId} {session : UInt64}
    (htag : tag.evidenceSession = some (machine, session)) (h : ¬isStale s tag) :
    s.cluster.sessions[machine]? = some session := by
  simpa [isStale, htag] using h

theorem absorbReply_follows (tag : Tag) (reply : AgentReply) :
    Guided Grounded (Move own) (absorbReply tag reply) := by
  intro w hw
  have hentry : (⟨w.service, .absorbed tag reply⟩ : Entry) ∈ (w.answer tag reply).trace := by
    simp [World.answer, World.observe, World.update]
  cases tag with
  | executionStart lease machine session => exact .single (.answerStart lease machine session reply)
  | binding id session fence phase =>
    refine follows_observe_update (.answer reply rfl) (follows_self (.ite (fun _ => .pure _) fun _ => ?_))
    exact (absorbBinding_follows (w := w.answer _ reply) rfl rfl).bind fun _ _ _ => .pure _
  | executionStop lease machine session =>
    refine follows_observe_update (.answer reply rfl) (follows_self (.ite (fun _ => .pure _) fun _ => ?_))
    exact (absorbStop_follows (w := w.answer _ reply) ⟨_, hentry, rfl⟩).bind fun _ _ _ => .pure _
  | status lease machine session =>
    refine follows_observe_update (.answer reply rfl)
      (follows_self (.ite (fun _ => .pure _) fun hfresh => ?_))
    exact absorbStatus_follows (w := w.answer _ reply) hw ⟨_, hentry, rfl⟩
      (session_of_fresh rfl hfresh)
  | enumerate machine session =>
    refine follows_observe_update (.answer reply rfl)
      (follows_self (.ite (fun _ => .pure _) fun hfresh => ?_))
    exact absorbEnumerate_follows (w := w.answer _ reply) hw hentry rfl rfl
      (session_of_fresh rfl hfresh)
  | strayFence machine session node provider scope id fence =>
    refine follows_observe_update (.answer reply rfl) (follows_self (.ite (fun _ => .pure _) fun _ => ?_))
    exact absorbStrayFence_follows (w := w.answer _ reply) hw (List.getLast?_concat ..) rfl
  | probe machine =>
    refine follows_observe_update (.answer reply rfl) (follows_self (.ite (fun _ => .pure _) fun _ => ?_))
    exact (absorbProbe_moving machine reply _).bind fun _ _ _ => .pure _

/-! Polling and the ends of leases. -/

theorem absorb_follows : Guided Grounded (Move own) absorb := by
  intro w hw
  unfold absorb
  refine follows_self (follows_update_bind (.inert _ _ _ _ _ _) ?_)
  refine Guided.bind Move.grounded (Guided.mapM Move.grounded fun answer _ =>
    absorbReply_follows answer.1 answer.2) (fun finished => ?_) _ hw
  refine .of_moving fun t => ?_
  split
  · exact (pump_moving t).bind fun _ _ _ => .pure _
  · exact .pure _

theorem drive_follows (arrivals : List (List (Tag × AgentReply))) :
    Guided Grounded (Move own) (drive arrivals) := by
  induction arrivals with
  | nil => exact Guided.bind Move.grounded absorb_follows fun _ => .of_moving pump_moving
  | cons arrived rest ih =>
    unfold drive
    refine Guided.bind Move.grounded absorb_follows fun _ =>
      Guided.bind Move.grounded (.of_moving pump_moving) fun _ => ?_
    intro w hw
    exact follows_self (.ite (fun _ => .pure ()) fun _ =>
      follows_update_bind (.inert _ _ _ _ _ _) (ih _ hw))

theorem collectCompletions_follows : Guided Grounded (Move own) collectCompletions := by
  unfold collectCompletions
  refine Guided.bind Move.grounded absorb_follows fun _ => .of_moving fun w => follows_self ?_
  exact (Moving.forM (fun lease _ => requestStatus_moving lease) w).bind fun _ t _ =>
    (pump_moving t).bind fun _ _ _ => .pure _

theorem probeAgents_moving : Moving (Move own) probeAgents := by
  intro w
  unfold probeAgents
  refine follows_self (Moving.forM (fun machine _ t => follows_self ?_) w)
  split
  · exact dispatch_follows .probe
  · exact .pure ()

theorem revoke_moving (lease : LeaseId) : Moving (Move own) (revoke lease) :=
  (commit_follows rfl).bind fun _ => pump_moving

theorem expireDue_moving : Moving (Move own) expireDue := by
  intro w
  unfold expireDue
  exact follows_self ((Moving.forM (fun _ _ => commit_follows rfl) w).bind fun _ t _ =>
    (pump_moving t).bind fun _ _ _ => .pure _)

theorem tick_moving (now : UInt64) : Moving (Move own) (tick now) :=
  fun _ => follows_update_bind (.clock now) (expireDue_moving _)

theorem markMachineUnhealthy_moving (machine : NodeId) :
    Moving (Move own) (markMachineUnhealthy machine) := by
  unfold markMachineUnhealthy
  refine (commit_follows rfl).bind fun _ => (commit_follows rfl).bind fun _ w => follows_self ?_
  exact (Moving.forM (fun _ _ => commit_follows rfl) w).bind fun _ t _ => pump_moving t

end Archon.Node.Service
