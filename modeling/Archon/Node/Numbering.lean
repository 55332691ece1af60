import Archon.Node.Intent

/-! The request counter is past every request, in the controller state and in
whatever state the sink was given last, so what it mints is fresh. This ends when
the last id there is has been taken. -/
namespace Archon.Node
open Archon.Kernel Fallible

/-- Every request goes by an id below the counter, and its payload by its id. -/
structure Numbered (state : ServiceState) : Prop where
  queued : ∀ queued ∈ state.queue, queued.request.id.asU64 < state.nextRequestId
  carried : ∀ (lease : LeaseId) entry, state.requests[lease]? = some entry →
    entry.1.resources.id.asU64 < state.nextRequestId
  payloads : ∀ (request : RequestId) workload, state.queuedWorkloads[request]? = some workload →
    workload.resources.id = request

variable {state state' : ServiceState} {licence : Licence} {w u : World}

theorem lt_add_one {counter : UInt64} (h : counter ≠ 18446744073709551615) : counter < counter + 1 := by
  have hlast : counter.toNat ≠ 2 ^ 64 - 1 := fun heq => h (UInt64.toNat_inj.mp heq)
  have hlt := counter.toNat_lt
  rw [UInt64.lt_iff_toNat_lt, UInt64.toNat_add, UInt64.toNat_one, Nat.mod_eq_of_lt (by omega)]
  exact Nat.lt_succ_self _

theorem le_enqueued (state : ServiceState) (workload : WorkloadSpec) (owner : OwnerId) (now : UInt64) :
    state.nextRequestId ≤ (state.enqueued workload owner now).nextRequestId := by
  rw [UInt64.le_iff_toNat_le, ServiceState.enqueued, toNat_max]
  exact Nat.le_max_left _ _

theorem lt_enqueued (state : ServiceState) {workload : WorkloadSpec} (owner : OwnerId) (now : UInt64)
    (hlast : workload.resources.id.asU64 ≠ 18446744073709551615) :
    workload.resources.id.asU64 < (state.enqueued workload owner now).nextRequestId := by
  refine UInt64.lt_of_lt_of_le (lt_add_one hlast) ?_
  rw [UInt64.le_iff_toNat_le, ServiceState.enqueued, toNat_max]
  exact Nat.le_max_right _ _

/-! Fresh ids. -/

theorem Fresh.enqueued {id : RequestId} (h : Fresh state id) {workload : WorkloadSpec}
    (hne : workload.resources.id ≠ id) (owner : OwnerId) (now : UInt64) :
    Fresh (state.enqueued workload owner now) id where
  minted := UInt64.lt_of_lt_of_le h.minted (le_enqueued _ _ _ _)
  unqueued queued hqueued := by
    rcases List.mem_append.mp hqueued with hqueued | hnew
    · exact h.unqueued queued hqueued
    · rw [List.mem_singleton.mp hnew]
      exact hne
  uncarried := h.uncarried

/-! What each change of the controller state leaves numbered. -/

namespace Numbered

theorem mono (h : Numbered state) (hnext : state.nextRequestId ≤ state'.nextRequestId)
    (hqueue : ∀ queued ∈ state'.queue, queued ∈ state.queue)
    (hrequests : ∀ (lease : LeaseId) entry, state'.requests[lease]? = some entry →
      state.requests[lease]? = some entry)
    (hpayloads : ∀ (request : RequestId) workload, state'.queuedWorkloads[request]? = some workload →
      state.queuedWorkloads[request]? = some workload) : Numbered state' where
  queued queued hqueued := UInt64.lt_of_lt_of_le (h.queued queued (hqueue queued hqueued)) hnext
  carried lease entry hentry :=
    UInt64.lt_of_lt_of_le (h.carried lease entry (hrequests lease entry hentry)) hnext
  payloads request workload hpayload := h.payloads request workload (hpayloads request workload hpayload)

theorem keep (h : Numbered state) (hnext : state.nextRequestId ≤ state'.nextRequestId)
    (hqueue : state'.queue = state.queue) (hrequests : state'.requests = state.requests)
    (hpayloads : state'.queuedWorkloads = state.queuedWorkloads) : Numbered state' :=
  h.mono hnext (by rw [hqueue]; exact fun _ hqueued => hqueued) (by rw [hrequests]; exact fun _ _ h => h)
    (by rw [hpayloads]; exact fun _ _ h => h)

theorem enqueued (h : Numbered state) (workload : WorkloadSpec) (owner : OwnerId) (now : UInt64)
    (hlast : workload.resources.id.asU64 ≠ 18446744073709551615) :
    Numbered (state.enqueued workload owner now) where
  queued queued hqueued := by
    rcases List.mem_append.mp hqueued with hqueued | hnew
    · exact UInt64.lt_of_lt_of_le (h.queued queued hqueued) (le_enqueued _ _ _ _)
    · rw [List.mem_singleton.mp hnew]
      exact lt_enqueued _ _ _ hlast
  carried lease entry hentry :=
    UInt64.lt_of_lt_of_le (h.carried lease entry hentry) (le_enqueued _ _ _ _)
  payloads request found hpayload := by
    simp only [ServiceState.enqueued, OrdMap.get_insert] at hpayload
    split at hpayload
    · rename_i heq
      cases hpayload
      exact heq
    · exact h.payloads request found hpayload

theorem payloadOf (h : Numbered state) (request : Request) :
    (state.payloadOf request).resources.id = request.id := by
  unfold ServiceState.payloadOf
  cases hpayload : state.queuedWorkloads[request.id]? with
  | none => rfl
  | some workload => exact h.payloads request.id workload hpayload

theorem admitted (h : Numbered state) {admission : Admission} {index : Nat} {queued : Queued}
    (hqueued : state.queue[index]? = some queued) (hrequest : queued.request.id = admission.request.id) :
    Numbered (state.admitted admission index) where
  queued other hother := h.queued other (List.mem_of_mem_eraseIdx hother)
  carried lease entry hentry := by
    simp only [ServiceState.admitted, OrdMap.get_insert] at hentry
    split at hentry
    · cases hentry
      have hlt := h.queued queued (List.mem_of_getElem? hqueued)
      rw [hrequest] at hlt
      change (state.payloadOf admission.request).resources.id.asU64 < _
      rw [h.payloadOf]
      exact hlt
    · exact h.carried lease entry hentry
  payloads request workload hpayload := by
    simp only [ServiceState.admitted, OrdMap.get_erase] at hpayload
    split at hpayload
    · cases hpayload
    · exact h.payloads request workload hpayload

theorem returned (h : Numbered state) {admission : Admission} {index : Nat} {queued : Queued}
    (hqueued : state.queue[index]? = some queued) : Numbered (state.returned admission index queued) where
  queued other hother := by
    rcases List.eq_or_mem_of_mem_insertIdx hother with rfl | hother
    · exact h.queued other (List.mem_of_getElem? hqueued)
    · exact h.queued other (List.mem_of_mem_eraseIdx hother)
  carried lease entry hentry := by
    simp only [ServiceState.returned, OrdMap.get_erase, OrdMap.get_insert] at hentry
    split at hentry
    · cases hentry
    · exact h.carried lease entry hentry
  payloads request workload hpayload := by
    simp only [ServiceState.returned, OrdMap.get_insert, OrdMap.get_erase] at hpayload
    split at hpayload
    · rename_i heq
      cases hpayload
      rw [h.payloadOf]
      exact heq
    · exact h.payloads request workload hpayload

end Numbered

/-! What the sink is given. -/

open Service

/-- The sink is given the state and the cluster that a step leaves. -/
def Saves (w u : World) : Prop :=
  ∃ extra, u.trace = w.trace ++ extra ∧ ∀ entry ∈ extra, ∀ command, entry.seen = .persisted command →
    entry.service.state = u.service.state ∧ entry.service.cluster = u.service.cluster

/-- Something holds of the durable state now, and of what the sink was given. -/
structure Durably (holds : Cluster → ServiceState → Prop) (w : World) : Prop where
  now : holds w.service.cluster w.service.state
  saved : ∀ entry ∈ w.trace, ∀ command, entry.seen = .persisted command →
    holds entry.service.cluster entry.service.state

theorem Durably.imp {holds holds' : Cluster → ServiceState → Prop} (hw : Durably holds w)
    (h : ∀ cluster state, holds cluster state → holds' cluster state) : Durably holds' w :=
  ⟨h _ _ hw.now, fun entry hentry command hseen => h _ _ (hw.saved entry hentry command hseen)⟩

theorem Durably.step {holds : Cluster → ServiceState → Prop} (hw : Durably holds w) (h : Saves w u)
    (hnow : holds u.service.cluster u.service.state) : Durably holds u := by
  refine ⟨hnow, fun entry hentry command hseen => ?_⟩
  obtain ⟨extra, htrace, hextra⟩ := h
  rw [htrace] at hentry
  rcases List.mem_append.mp hentry with hbefore | hnew
  · exact hw.saved entry hbefore command hseen
  · obtain ⟨hstate, hcluster⟩ := hextra entry hnew command hseen
    rw [hstate, hcluster]
    exact hnow

theorem lastPersisted_some {trace : List Entry} (h : lastPersisted trace = some state) :
    ∃ entry ∈ trace, ∃ command, entry.seen = .persisted command ∧ entry.service.state = state := by
  simp only [lastPersisted, List.findRev?_eq_find?_reverse, Option.map_eq_some_iff] at h
  obtain ⟨entry, hfound, hstate⟩ := h
  have hmem := List.mem_reverse.mp (List.mem_of_find?_eq_some hfound)
  have hseen := List.find?_some hfound
  cases hentry : entry.seen with
  | persisted command => exact ⟨entry, hmem, command, hentry, hstate⟩
  | _ => simp [hentry] at hseen

theorem Saves.none (h : u.trace = w.trace) : Saves w u :=
  ⟨[], by rw [h, List.append_nil], fun entry hentry => by cases hentry⟩

theorem Saves.one {service : NodeService} {seen : Observation} (h : u.trace = w.trace ++ [⟨service, seen⟩])
    (hseen : ∀ command, seen ≠ .persisted command) : Saves w u := by
  refine ⟨_, h, fun entry hentry command heq => ?_⟩
  rw [List.mem_singleton.mp hentry] at heq
  exact absurd heq (hseen command)

theorem commit_saves (command : Command) (effects : List Effect) (cluster : Cluster) :
    Saves w (w.commit command effects cluster) := by
  refine ⟨_, trace_commit_eq command effects cluster, fun entry hentry found hseen => ?_⟩
  rw [service_commit]
  rcases List.mem_cons.mp hentry with rfl | hentry
  · cases hseen
  · split at hentry
    · rw [List.mem_singleton.mp hentry]
      exact ⟨rfl, rfl⟩
    · cases hentry

theorem Saves.after_one {v : World} {service : NodeService} {seen : Observation}
    (hv : v.trace = w.trace ++ [⟨service, seen⟩]) (hseen : ∀ command, seen ≠ .persisted command)
    (h : Saves v u) : Saves w u := by
  obtain ⟨extra, htrace, hextra⟩ := h
  refine ⟨⟨service, seen⟩ :: extra, by rw [htrace, hv, List.append_assoc]; rfl, fun entry hentry => ?_⟩
  rcases List.mem_cons.mp hentry with rfl | hmem
  · exact fun command heq => absurd heq (hseen command)
  · exact hextra entry hmem

theorem answerStart_cases {motive : World → Prop} (lease : LeaseId) (machine : NodeId)
    (session : UInt64) (reply : AgentReply)
    (hnoted : ∀ executionStarted, motive ((w.answer (.executionStart lease machine session) reply).update
      fun s => { s with executionStarted }))
    (hfailed : ∀ reason effects cluster,
      Cluster.apply (.failLease lease reason) w.service.cluster = .ok effects cluster →
        motive ((w.answer (.executionStart lease machine session) reply).commit
          (.failLease lease reason) effects cluster))
    (hrefused : ∀ reason e left,
      Cluster.apply (.failLease lease reason) w.service.cluster = .error e left →
        motive ((w.answer (.executionStart lease machine session) reply).update
          fun s => { s with cluster := left })) :
    motive (after (absorbReply (.executionStart lease machine session) reply) w) := by
  rcases after_answerStart (w := w) lease machine session reply with
    ⟨heq, -⟩ | heq | ⟨reason, -, heq⟩
  · rw [heq]
    exact hnoted w.service.executionStarted
  · rw [heq]
    exact hnoted _
  · rw [heq]
    cases happly : Cluster.apply (.failLease lease reason) w.service.cluster with
    | error e left =>
      rw [after_of_error (@commit_run_error (w.answer _ reply) _ _ _ happly)]
      exact hrefused reason e left happly
    | ok effects cluster =>
      rw [after_of_ok (@commit_run_ok (w.answer _ reply) _ _ _ happly)]
      exact hfailed reason effects cluster happly

theorem Move.saves {own : Bool} (h : Move own w u) : Saves w u := by
  cases h with
  | commit => exact commit_saves _ _ _
  | hello => exact commit_saves _ _ _
  | answerStart lease machine session reply =>
    have hanswer : (w.answer (.executionStart lease machine session) reply).trace =
        w.trace ++ [⟨w.service, .absorbed (.executionStart lease machine session) reply⟩] := rfl
    have hseen : ∀ command, Observation.absorbed (.executionStart lease machine session) reply ≠
        .persisted command := fun _ heq => by cases heq
    refine answerStart_cases lease machine session reply (fun _ => .one hanswer hseen) ?_
      fun _ _ _ _ => .one hanswer hseen
    exact fun reason effects cluster _ => .after_one hanswer hseen (commit_saves _ _ _)
  | call =>
    unfold World.call
    split
    · exact .one rfl fun _ heq => by cases heq
    · exact .none rfl
  | persist =>
    refine ⟨_, rfl, fun entry hentry _ _ => ?_⟩
    rw [List.mem_singleton.mp hentry]
    exact ⟨rfl, rfl⟩
  | answer | pop | drain | report | recover | join | recovered =>
    exact .one rfl fun _ heq => by cases heq
  | refuse | clock | hold | rehold | activate | adopt | start | stop | await | status | endpoints
  | stray | closed | session | inert => exact .none rfl

theorem Stir.saves (h : Stir licence w u) : Saves w u := by
  cases h with
  | move hmove => exact Move.saves hmove
  | opening => exact commit_saves _ _ _
  | grant => exact commit_saves (w := w.setState _) _ _ _
  | enqueue | enroll | draw | restart | cancel | enlist => exact .one rfl fun _ heq => by cases heq
  | bind | deny | tally | giveUp | regroup | restore => exact .none rfl

theorem Stir.exhausted (h : Stir licence w u) (hexhausted : Exhausted w.trace) : Exhausted u.trace := by
  obtain ⟨entry, hentry, hlast⟩ := hexhausted
  obtain ⟨extra, htrace, -⟩ := h.saves
  rw [htrace]
  exact ⟨entry, List.mem_append_left _ hentry, hlast⟩

/-- What a step keeps while ids last, it keeps until they are exhausted. -/
theorem Stir.lasting {inv : World → Prop} (h : Stir licence w u) (hw : Exhausted w.trace ∨ inv w)
    (hkeeps : ¬Exhausted w.trace → inv w → inv u) : Exhausted u.trace ∨ inv u := by
  by_cases hexhausted : Exhausted w.trace
  · exact .inl (h.exhausted hexhausted)
  · exact .inr (hkeeps hexhausted (hw.resolve_left hexhausted))

theorem Move.keeps_state {own : Bool} (h : Move own w u) :
    ∃ next, u.service.state = { w.service.state with nextSession := next } := by
  have hkeep : ∀ {s : ServiceState}, s = w.service.state →
      ∃ next, s = { w.service.state with nextSession := next } := fun heq => ⟨_, heq⟩
  cases h with
  | commit | hello => exact hkeep (by rw [service_commit])
  | answerStart lease machine session reply =>
    refine answerStart_cases (w := w)
      (motive := fun u => ∃ next, u.service.state = { w.service.state with nextSession := next })
      lease machine session reply ?_ ?_ ?_
    · exact fun _ => hkeep rfl
    · exact fun reason effects cluster _ => hkeep (by rw [service_commit]; rfl)
    · exact fun _ _ _ _ => hkeep rfl
  | call =>
    unfold World.call
    split
    · exact hkeep rfl
    · exact hkeep rfl
  | session next => exact ⟨next, rfl⟩
  | persist | answer | pop | drain | report | recover | join | recovered | refuse | clock | hold
  | rehold | activate | adopt | start | stop | await | status | endpoints | stray | closed | inert =>
    exact hkeep rfl

theorem Stir.grounded (h : Stir licence w u) (hw : Grounded w) : Grounded u := by
  cases h with
  | move hmove => exact Move.grounded w u hmove hw
  | opening _ _ happly =>
    unfold Grounded
    rw [service_commit]
    exact Cluster.Reachable.apply_ok hw happly
  | grant _ _ _ happly =>
    unfold Grounded
    rw [service_commit]
    exact Cluster.Reachable.apply_ok hw happly
  | deny _ _ _ happly =>
    obtain rfl := Cluster.Reachable.refused hw happly
    exact hw
  | enqueue | enroll | bind | draw | tally | giveUp | restart | cancel | regroup | enlist | restore =>
    exact hw

/-- A cluster the kernel can be in, and a numbered state while ids last. -/
structure Regular (exhausted : Prop) (cluster : Cluster) (state : ServiceState) : Prop where
  grounded : cluster.Reachable
  numbered : exhausted ∨ Numbered state

abbrev Kept (w : World) : Prop := Durably (Regular (Exhausted w.trace)) w

/-- The last id is taken, or the counter is past the id that was. -/
theorem exhausted_or_numbered {service : NodeService} {seen : Observation} {trace : List Entry} {id : UInt64}
    (hseen : id = 18446744073709551615 → seen.isLast) (h : id ≠ 18446744073709551615 → Numbered state) :
    Exhausted (trace ++ [⟨service, seen⟩]) ∨ Numbered state := by
  by_cases hlast : id = 18446744073709551615
  · exact .inl ⟨_, List.mem_append_right _ List.mem_cons_self, hseen hlast⟩
  · exact .inr (h hlast)

theorem Stir.numbered (h : Stir licence w u) (hw : Kept w) : Exhausted u.trace ∨ Numbered u.service.state := by
  refine hw.now.numbered.elim (fun hexhausted => .inl (h.exhausted hexhausted)) fun hnumbered => ?_
  cases h with
  | move hmove =>
    obtain ⟨next, hstate⟩ := Move.keeps_state hmove
    rw [hstate]
    exact .inr (hnumbered.keep (UInt64.le_refl _) rfl rfl rfl)
  | opening =>
    rw [service_commit]
    exact .inr hnumbered
  | enqueue workload owner =>
    exact exhausted_or_numbered (fun hlast => decide_eq_true hlast) fun hlast =>
      hnumbered.enqueued workload owner _ hlast
  | enroll _ workload owner pins groups members hid =>
    refine exhausted_or_numbered (fun hlast => decide_eq_true hlast) fun hlast => ?_
    have hnext := hlast
    rw [hid] at hnext
    have hminted : Numbered { w.service.state with
        nextRequestId := w.service.state.nextRequestId + 1
        memberPins := pins, memberGroups := groups, groupMembers := members } :=
      hnumbered.keep (UInt64.le_of_lt (lt_add_one hnext)) rfl rfl rfl
    exact hminted.enqueued workload owner _ hlast
  | grant _ hqueued hrequest =>
    rw [service_commit]
    exact .inr (hnumbered.admitted hqueued hrequest)
  | deny _ hqueued hrequest => exact .inr (hnumbered.returned hqueued)
  | restart =>
    exact exhausted_or_numbered (fun hlast => decide_eq_true hlast) fun hlast =>
      hnumbered.keep (UInt64.le_of_lt (lt_add_one hlast)) rfl rfl rfl
  | cancel _ request =>
    refine .inr (hnumbered.mono (UInt64.le_refl _) ?_ (fun _ _ h => h) ?_)
    · exact fun queued hqueued => List.mem_of_mem_filter hqueued
    · intro other workload hpayload
      simp only [World.observe, World.setState, World.update, ServiceState.cancelled,
        OrdMap.get_erase] at hpayload
      split at hpayload
      · cases hpayload
      · exact hpayload
  | restore _ hlast =>
    obtain ⟨entry, hentry, command, hseen, rfl⟩ := lastPersisted_some hlast
    exact (hw.saved entry hentry command hseen).numbered
  | bind | draw | tally | giveUp | regroup | enlist =>
    exact .inr (hnumbered.keep (UInt64.le_refl _) rfl rfl rfl)

theorem Stir.kept (h : Stir licence w u) (hw : Kept w) : Kept u := by
  have hlater : Durably (Regular (Exhausted u.trace)) w :=
    hw.imp fun _ _ hregular => ⟨hregular.grounded, hregular.numbered.imp_left h.exhausted⟩
  exact hlater.step h.saves ⟨h.grounded hw.now.grounded, h.numbered hw⟩

end Archon.Node
