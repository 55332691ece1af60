import Archon.Node.Numbering

/-! Every operation in moves and changes of the controller state. The ids that an
operation mints are fresh when their requests enter the queue, as long as the
counter is past every request and ids last. -/
namespace Archon.Node
open Archon.Kernel Fallible

/-- A change by an operation that takes in no requests and leaves the groups alone. -/
inductive Drift (licence : Licence) (w : World) : World → Prop where
  | move (h : Move (!licence.sessions) w u) : Drift licence w u
  | bind : Drift licence w (w.setState { w.service.state with
      nextBinding := w.service.state.nextBinding + 1 })
  | draw : Drift licence w w.draw
  | opening (h : licence.leases) (hopens : opensLease command)
      (happly : Cluster.apply command w.service.cluster = .ok effects cluster) :
      Drift licence w (w.commit command effects cluster)
  | grant {index : Nat} {queued : Queued}
      (hroom : w.service.state.nextLease ≠ 18446744073709551615 ∨ Exhausted w.trace)
      (hqueued : w.service.state.queue[index]? = some queued)
      (hrequest : queued.request.id = admission.request.id)
      (happly : Cluster.apply (w.openCommand admission) w.service.cluster = .ok effects cluster) :
      Drift licence w ((w.setState (w.service.state.admitted admission index)).commit
        (w.openCommand admission) effects cluster)
  | deny {index : Nat} {queued : Queued}
      (hroom : w.service.state.nextLease ≠ 18446744073709551615 ∨ Exhausted w.trace)
      (hqueued : w.service.state.queue[index]? = some queued)
      (hrequest : queued.request.id = admission.request.id)
      (happly : Cluster.apply (w.openCommand admission) w.service.cluster = .error e left) :
      Drift licence w (w.update fun s => { s with
        cluster := left
        state := w.service.state.returned admission index queued })

theorem Drift.stir {licence : Licence} {w u : World} (h : Drift licence w u) : Stir licence w u := by
  cases h with
  | move hmove => exact .move hmove
  | bind => exact .bind
  | draw => exact .draw
  | opening hleases hopens happly => exact .opening hleases hopens happly
  | grant hroom hqueued hrequest happly => exact .grant hroom hqueued hrequest happly
  | deny hroom hqueued hrequest happly => exact .deny hroom hqueued hrequest happly

namespace Service
variable {licence : Licence} {own : Bool} {w : World} {α β : Type}

theorem moving_stirs {program : ServiceM α} (h : Moving (Move (!licence.sessions)) program) :
    Moving (Stir licence) program := fun w => (h w).weaken fun _ _ => .move

theorem guided_stirs {program : ServiceM α} (h : Guided Grounded (Move (!licence.sessions)) program) :
    Guided Grounded (Stir licence) program := fun w hw => (h w hw).weaken fun _ _ => .move

theorem persist_stirs : Moving (Stir licence) (persist none) := moving_stirs (persist_moving none rfl)

theorem observe_bind_run (seen : Observation) (next : Unit → ServiceM β) :
    (observe seen >>= next) w = next () (w.observe seen) := rfl

theorem updateState_run (f : ServiceState → ServiceState) (next : Unit → ServiceM β) :
    (updateState f >>= next) w = next () (w.setState (f w.service.state)) := rfl

/-! The queue and restarts. -/

theorem enqueue_run (workload : WorkloadSpec) (owner : OwnerId) :
    enqueue workload owner w = .ok () (w.enqueue workload owner) := rfl

theorem enqueue_follows {workload : WorkloadSpec} (owner : OwnerId)
    (h : licence.requests ∨ Exhausted w.trace ∨ Fresh w.service.state workload.resources.id ∨
      w.service.state.nextRequestId ≤ workload.resources.id.asU64) :
    Follows (Stir licence) w (enqueue workload owner) := by
  unfold Follows
  rw [after_of_ok (enqueue_run workload owner)]
  exact .single (.enqueue workload owner h)

theorem submit_follows {workload : WorkloadSpec} (owner : OwnerId)
    (h : licence.requests ∨ w.service.state.nextRequestId ≤ workload.resources.id.asU64) :
    Follows (Stir licence) w (submit workload owner) :=
  (enqueue_follows owner (h.imp_right fun hnext => .inr (.inr hnext))).bind fun _ t _ => persist_stirs t

/-- A lease is passed over, given up or restarted under the next id. -/
inductive Restarting (w : World) (id : LeaseId) :
    EStateM.Result Fault World (Option (WorkloadSpec × OwnerId)) → Prop where
  | passed : Restarting w id (.ok none w)
  | waits (root : RequestId) : Restarting w id (.ok none (w.setState (w.service.state.tallied root)))
  | givenUp (root : RequestId) : Restarting w id (.ok none (w.setState
      { w.service.state.tallied root with
        restartHandled := w.service.state.restartHandled.insert id () }))
  | restarted (h : Restartable w.service id workload owner) :
      Restarting w id (.ok (some (workload.withId ⟨w.service.state.nextRequestId⟩, owner))
        ((w.setState (w.service.state.tallied (w.service.state.rootOf workload))).restart id
          (w.service.state.rootOf workload)))

theorem restartLease_restarting {id : LeaseId} {lease : Lease}
    (hlease : w.service.cluster.leases[id]? = some lease) :
    Restarting w id (restartLease id lease w) := by
  unfold restartLease
  rw [self_bind_run]
  dsimp only
  split
  · exact .passed
  rename_i halive
  simp only [Bool.or_eq_true, decide_eq_true_eq, not_or, Bool.not_eq_true', Bool.not_eq_false] at halive
  cases hpayload : w.service.state.requests[id]? with
  | none => exact .passed
  | some entry =>
    obtain ⟨workload, owner⟩ := entry
    dsimp only
    split
    · exact .passed
    rename_i hkept
    rw [updateState_run]
    split
    · exact .givenUp (w.service.state.rootOf workload)
    rename_i hcap
    split
    · exact .waits (w.service.state.rootOf workload)
    rename_i hdue
    rw [updateState_run]
    have h : Restartable w.service id workload owner := by
      refine ⟨⟨lease, hlease, halive.1⟩, halive.2, hpayload, by simpa using hkept, ?_, ?_⟩
      · exact UInt32.not_le.mp hcap
      · exact UInt64.not_lt.mp hdue
    have hcounted := restartsOf_tallied w.service.state (w.service.state.rootOf workload)
    have hrestarted := Restarting.restarted h
    rw [World.restart, ServiceState.restarted, ServiceState.counted] at hrestarted
    rw [show (w.setState (w.service.state.tallied (w.service.state.rootOf workload))).service.state =
      w.service.state.tallied (w.service.state.rootOf workload) from rfl, hcounted] at hrestarted
    exact hrestarted

theorem restartLease_follows (hlicensed : licence.restarts) {id : LeaseId} {lease : Lease}
    (hlease : w.service.cluster.leases[id]? = some lease) :
    Follows (Stir licence) w (restartLease id lease) := by
  have hcases := restartLease_restarting hlease
  unfold Follows after
  generalize restartLease id lease w = result at hcases
  cases hcases with
  | passed => exact .refl
  | waits root => exact .single (.tally hlicensed root)
  | givenUp root => exact (Relation.ReflTransGen.single (.tally hlicensed root)).tail (.giveUp hlicensed id)
  | restarted h =>
    exact (Relation.ReflTransGen.single (.tally hlicensed _)).tail (.restart h.tallied hlicensed)

/-- What taking restarts leaves while ids last: requests under new ids, not queued yet. -/
structure Restarts (w t : World) (restarts : List (WorkloadSpec × OwnerId)) : Prop where
  cluster : t.service.cluster = w.service.cluster
  queue : t.service.state.queue = w.service.state.queue
  requests : t.service.state.requests = w.service.state.requests
  next : w.service.state.nextRequestId ≤ t.service.state.nextRequestId
  ids : ∀ restart ∈ restarts, w.service.state.nextRequestId ≤ restart.1.resources.id.asU64 ∧
    restart.1.resources.id.asU64 < t.service.state.nextRequestId
  distinct : (restarts.map fun restart => restart.1.resources.id).Nodup

theorem restartLease_restarts {id : LeaseId} {lease : Lease} {found : Option (WorkloadSpec × OwnerId)}
    {t : World} (hlease : w.service.cluster.leases[id]? = some lease)
    (h : restartLease id lease w = .ok found t) :
    t.service.cluster = w.service.cluster ∧ (Exhausted t.trace ∨ Restarts w t found.toList) := by
  have hcases := restartLease_restarting hlease
  rw [h] at hcases
  cases hcases with
  | passed | waits | givenUp =>
    exact ⟨rfl, .inr ⟨rfl, rfl, rfl, UInt64.le_refl _, by simp, by simp⟩⟩
  | restarted =>
    refine ⟨rfl, ?_⟩
    by_cases hlast : w.service.state.nextRequestId = 18446744073709551615
    · exact .inl ⟨_, List.mem_append_right _ List.mem_cons_self, decide_eq_true hlast⟩
    · have hlt := lt_add_one hlast
      refine .inr ⟨rfl, rfl, rfl, UInt64.le_of_lt hlt, fun restart hrestart => ?_, by simp⟩
      rw [List.mem_singleton.mp hrestart]
      exact ⟨UInt64.le_refl _, hlt⟩

theorem Restarts.trans {t u : World} {first rest : List (WorkloadSpec × OwnerId)}
    (h : Restarts w t first) (h' : Restarts t u rest) : Restarts w u (first ++ rest) where
  cluster := h'.cluster.trans h.cluster
  queue := h'.queue.trans h.queue
  requests := h'.requests.trans h.requests
  next := UInt64.le_trans h.next h'.next
  ids restart hrestart := by
    rcases List.mem_append.mp hrestart with hfirst | hrest
    · exact ⟨(h.ids restart hfirst).1, UInt64.lt_of_lt_of_le (h.ids restart hfirst).2 h'.next⟩
    · exact ⟨UInt64.le_trans h.next (h'.ids restart hrest).1, (h'.ids restart hrest).2⟩
  distinct := by
    rw [List.map_append, List.nodup_append]
    refine ⟨h.distinct, h'.distinct, ?_⟩
    rintro id hid _ hother rfl
    obtain ⟨restart, hrestart, rfl⟩ := List.mem_map.mp hid
    obtain ⟨other, hmem, heq⟩ := List.mem_map.mp hother
    have hlt := UInt64.lt_of_lt_of_le (h.ids restart hrestart).2 (h'.ids other hmem).1
    rw [heq] at hlt
    exact UInt64.lt_irrefl _ hlt

theorem exhausted_of_follows {program : ServiceM α} {a : α} {t : World} (h : Follows (Stir licence) w program)
    (hrun : program w = .ok a t) (hexhausted : Exhausted w.trace) : Exhausted t.trace := by
  have hkeeps : ∀ s u, Stir licence s u → Exhausted s.trace → Exhausted u.trace := fun _ _ => Stir.exhausted
  exact Guided.ok_inv hkeeps h hexhausted hrun

theorem filterMapM_restarts (hlicensed : licence.restarts) {items : List (LeaseId × Lease)}
    (hitems : ∀ item ∈ items, w.service.cluster.leases[item.1]? = some item.2) :
    Follows (Stir licence) w (items.filterMapM fun item => restartLease item.1 item.2) ∧
      ∀ restarts t, items.filterMapM (fun item => restartLease item.1 item.2) w = .ok restarts t →
        Exhausted t.trace ∨ Restarts w t restarts := by
  induction items generalizing w with
  | nil =>
    rw [List.filterMapM_nil]
    refine ⟨.pure [], fun restarts t h => ?_⟩
    obtain ⟨rfl, rfl⟩ := pure_ok.mp h
    exact .inr ⟨rfl, rfl, rfl, UInt64.le_refl _, by simp, by simp⟩
  | cons item items ih =>
    rw [List.filterMapM_cons]
    have hitem := hitems item List.mem_cons_self
    have hrest : ∀ {found t}, restartLease item.1 item.2 w = .ok found t →
        (Exhausted t.trace ∨ Restarts w t found.toList) ∧
          ∀ other ∈ items, t.service.cluster.leases[other.1]? = some other.2 := by
      intro found t ht
      obtain ⟨hcluster, hrestarts⟩ := restartLease_restarts hitem ht
      refine ⟨hrestarts, ?_⟩
      rw [hcluster]
      exact fun other hother => hitems other (List.mem_cons_of_mem _ hother)
    refine ⟨(restartLease_follows hlicensed hitem).bind fun found t ht => ?_, fun restarts u h => ?_⟩
    · have hnext := (ih (hrest ht).2).1
      cases found with
      | none => exact hnext
      | some restart => exact hnext.bind fun _ _ _ => .pure _
    · obtain ⟨found, t, ht, h⟩ := bind_ok.mp h
      obtain ⟨hfirst, hlater⟩ := hrest ht
      obtain ⟨rest, hrun, hrestarts⟩ : ∃ rest,
          items.filterMapM (fun item => restartLease item.1 item.2) t = .ok rest u ∧
            restarts = found.toList ++ rest := by
        cases found with
        | none => exact ⟨restarts, h, rfl⟩
        | some restart =>
          obtain ⟨rest, v, hv, h⟩ := bind_ok.mp h
          obtain ⟨rfl, rfl⟩ := pure_ok.mp h
          exact ⟨rest, hv, rfl⟩
      rcases hfirst with hexhausted | hfirst
      · exact .inl (exhausted_of_follows (ih hlater).1 hrun hexhausted)
      · rw [hrestarts]
        exact ((ih hlater).2 rest u hrun).imp_right hfirst.trans

theorem Restarts.fresh {t : World} {restarts : List (WorkloadSpec × OwnerId)}
    (h : Restarts w t restarts) (hnumbered : Numbered w.service.state) :
    ∀ restart ∈ restarts, Fresh t.service.state restart.1.resources.id := by
  intro restart hrestart
  obtain ⟨hlow, hminted⟩ := h.ids restart hrestart
  refine ⟨hminted, fun queued hqueued heq => ?_, fun lease entry hentry heq => ?_⟩
  · rw [h.queue] at hqueued
    have hlt := UInt64.lt_of_lt_of_le (hnumbered.queued queued hqueued) hlow
    rw [heq] at hlt
    exact UInt64.lt_irrefl _ hlt
  · rw [h.requests] at hentry
    have hlt := UInt64.lt_of_lt_of_le (hnumbered.carried lease entry hentry) hlow
    rw [heq] at hlt
    exact UInt64.lt_irrefl _ hlt

/-- Requests under fresh ids of their own enter the queue one by one. -/
theorem enqueueAll_follows {restarts : List (WorkloadSpec × OwnerId)}
    (h : Exhausted w.trace ∨ (∀ restart ∈ restarts, Fresh w.service.state restart.1.resources.id) ∧
      (restarts.map fun restart => restart.1.resources.id).Nodup) :
    Follows (Stir licence) w (restarts.forM fun restart => enqueue restart.1 restart.2) := by
  induction restarts generalizing w with
  | nil =>
    rw [List.forM_eq_forM, List.forM_nil]
    exact .pure ()
  | cons restart rest ih =>
    rw [List.forM_eq_forM, List.forM_cons]
    have hhead : Exhausted w.trace ∨ Fresh w.service.state restart.1.resources.id :=
      h.imp_right fun hfresh => hfresh.1 restart List.mem_cons_self
    have hfollows : Follows (Stir licence) w (enqueue restart.1 restart.2) :=
      enqueue_follows restart.2 (.inr (hhead.imp_right .inl))
    refine hfollows.bind fun _ t ht => ih ?_
    refine h.imp (exhausted_of_follows hfollows ht) fun hfresh => ?_
    obtain ⟨hnew, hrest⟩ := List.nodup_cons.mp hfresh.2
    rw [enqueue_run] at ht
    cases ht
    refine ⟨fun other hother => ?_, hrest⟩
    refine (hfresh.1 other (List.mem_cons_of_mem _ hother)).enqueued (fun heq => hnew ?_) _ _
    exact List.mem_map.mpr ⟨other, hother, heq.symm⟩

theorem queueRestarts_follows (hlicensed : licence.restarts)
    (hnumbered : Exhausted w.trace ∨ Numbered w.service.state) : Follows (Stir licence) w queueRestarts := by
  unfold queueRestarts takeRestarts
  have hitems : ∀ item ∈ w.service.cluster.leases.toList, w.service.cluster.leases[item.1]? = some item.2 :=
    fun item hitem => Std.ExtTreeMap.mem_toList_iff_getElem?_eq_some.mp hitem
  obtain ⟨hfollows, hrestarts⟩ := @filterMapM_restarts licence w hlicensed _ hitems
  refine Follows.bind (follows_self hfollows) fun restarts t ht => ?_
  have hfresh : Exhausted t.trace ∨ (∀ restart ∈ restarts, Fresh t.service.state restart.1.resources.id) ∧
      (restarts.map fun restart => restart.1.resources.id).Nodup := by
    refine hnumbered.elim (fun hexhausted => .inl (exhausted_of_follows hfollows ht hexhausted)) fun hnumbered => ?_
    exact (hrestarts restarts t ht).imp_right fun htaken => ⟨htaken.fresh hnumbered, htaken.distinct⟩
  exact (enqueueAll_follows hfresh).bind fun _ u _ => (persist_stirs u).bind fun _ _ _ => .pure _

/-! Admission. -/

theorem drifting_stirs {program : ServiceM α} (h : Moving (Drift licence) program) :
    Moving (Stir licence) program := fun w => (h w).weaken fun _ _ => Drift.stir

theorem moving_drifts {program : ServiceM α} (h : Moving (Move (!licence.sessions)) program) :
    Moving (Drift licence) program := fun w => (h w).weaken fun _ _ => .move

theorem guided_drifts {program : ServiceM α} (h : Guided Grounded (Move (!licence.sessions)) program) :
    Guided Grounded (Drift licence) program := fun w hw => (h w hw).weaken fun _ _ => .move

theorem openEnforcedBinding_drifts (lease : LeaseId) (claim : Claim) :
    Moving (Drift licence) (openEnforcedBinding lease claim) := by
  unfold openEnforcedBinding
  refine self_moving.bind fun _ => (check_moving _).bind fun contract => fun w => ?_
  refine follows_self (follows_update_bind .bind ?_)
  exact (commit_follows rfl _).weaken fun _ _ => .move

theorem openEnforcedBindings_drifts (lease : LeaseId) :
    Moving (Drift licence) (openEnforcedBindings lease) :=
  self_moving.bind fun _ => (check_moving _).bind fun _ =>
    .forM fun claim _ => openEnforcedBinding_drifts lease claim

theorem onRefusal_ok {program : ServiceM α} {cleanup : ServiceM Unit} {a : α} {t : World}
    (h : program w = .ok a t) : onRefusal program cleanup w = .ok a t := by
  simp only [onRefusal, h]

theorem onRefusal_error {program : ServiceM α} {cleanup : ServiceM Unit} {e : Error} {t u : World}
    (h : program w = .error (.err e) t) (hcleanup : cleanup t = .ok () u) :
    onRefusal program cleanup w = .error (.err e) u := by
  simp only [onRefusal, h, bind, EStateM.bind, hcleanup]
  rfl

/-- The lease of an admitted request is opened, or the admission taken back. -/
theorem grantLease_run {admission : Admission} {index : Nat} {queued : Queued}
    (hindex : (w.service.state.queue.findIdx? fun queued =>
      decide (queued.request.id = admission.request.id)) = some index)
    (hqueued : (w.service.state.queue.find? fun queued =>
      decide (queued.request.id = admission.request.id)) = some queued) :
    grantLease admission w =
      match Cluster.apply (w.openCommand admission) w.service.cluster with
      | .ok effects cluster => .ok ⟨w.service.state.nextLease⟩
        ((w.draw.setState (w.service.state.admitted admission index)).commit (w.openCommand admission)
          effects cluster)
      | .error e left => .error (.err e) (w.draw.update fun s => { s with
          cluster := left
          state := w.service.state.returned admission index queued }) := by
  unfold grantLease
  rw [self_bind_run]
  extract_lets workload isAdmitted done
  rw [observe_bind_run, updateState_run]
  rw [show List.findIdx? isAdmitted w.service.state.queue = some index from hindex,
    show List.find? isAdmitted w.service.state.queue = some queued from hqueued]
  -- both parts of the admission are written before the kernel is asked
  have hopen : ∀ {outcome}, onRefusal (commit (w.openCommand admission))
      (updateState fun state => { state with
        queue := state.queue.insertIdx index queued
        requests := state.requests.erase ⟨w.service.state.nextLease⟩
        queuedWorkloads := state.queuedWorkloads.insert admission.request.id workload })
      (w.draw.setState (w.service.state.admitted admission index)) = outcome →
      openAdmitted admission ⟨w.service.state.nextLease⟩ index queued workload
        (w.draw.setState { w.service.state with
          nextLease := w.service.state.nextLease + 1
          queuedWorkloads := w.service.state.queuedWorkloads.erase admission.request.id
          requests := w.service.state.requests.insert ⟨w.service.state.nextLease⟩
            (workload, admission.owner) }) = outcome := fun h => h
  cases happly : Cluster.apply (w.openCommand admission) w.service.cluster with
  | ok effects cluster =>
    have hcommit := @commit_run_ok (w.draw.setState (w.service.state.admitted admission index))
      (w.openCommand admission) effects cluster happly
    exact bind_ok.mpr ⟨(), _, hopen (onRefusal_ok hcommit), rfl⟩
  | error e left =>
    have hcommit := @commit_run_error (w.draw.setState (w.service.state.admitted admission index))
      (w.openCommand admission) e left happly
    exact bind_of_error (hopen (onRefusal_error hcommit rfl)) done

/-- The first request of an id that is queued. -/
theorem queue_position {queue : List Queued} {request : RequestId}
    (h : ∃ queued ∈ queue, queued.request.id = request) :
    ∃ index queued, (queue.findIdx? fun queued => decide (queued.request.id = request)) = some index ∧
      (queue.find? fun queued => decide (queued.request.id = request)) = some queued ∧
      queue[index]? = some queued ∧ queued.request.id = request := by
  obtain ⟨found, hfound, hid⟩ := h
  cases hindex : queue.findIdx? fun queued => decide (queued.request.id = request) with
  | none =>
    have hnone := List.findIdx?_eq_none_iff.mp hindex found hfound
    simp [hid] at hnone
  | some index =>
    obtain ⟨hlt, hfirst, -⟩ := List.findIdx?_eq_some_iff_getElem.mp hindex
    have hget : queue[index]? = some queue[index] := List.getElem?_eq_getElem hlt
    refine ⟨index, queue[index], rfl, ?_, hget, of_decide_eq_true hfirst⟩
    rw [List.find?_eq_bind_findIdx?_getElem?, hindex]
    exact hget

theorem grantLease_follows {admission : Admission}
    (hqueue : ∃ queued ∈ w.service.state.queue, queued.request.id = admission.request.id) :
    Follows (Drift licence) w (grantLease admission) := by
  obtain ⟨index, queued, hindex, hfind, hqueued, hid⟩ := queue_position hqueue
  have hrun := grantLease_run hindex hfind
  have hroom : w.draw.service.state.nextLease ≠ 18446744073709551615 ∨ Exhausted w.draw.trace := by
    by_cases hlast : w.service.state.nextLease = 18446744073709551615
    · exact .inr ⟨_, List.mem_append_right _ List.mem_cons_self, decide_eq_true hlast⟩
    · exact .inl hlast
  unfold Follows
  cases happly : Cluster.apply (w.openCommand admission) w.service.cluster with
  | ok effects cluster =>
    rw [happly] at hrun
    rw [after_of_ok hrun]
    exact .head .draw (.single (.grant (w := w.draw) hroom hqueued hid happly))
  | error e left =>
    rw [happly] at hrun
    rw [after_of_error hrun]
    exact .head .draw (.single (.deny (w := w.draw) hroom hqueued hid happly))

theorem admitOneWithPolicy_drifts (policy : AdmissionPolicy) :
    Moving (Drift licence) (admitOneWithPolicy policy) := by
  intro w
  unfold admitOneWithPolicy
  refine follows_self ?_
  cases hgranted : w.service.cluster.admitBackfillWithPolicy w.service.state.queue policy
      (executionExclusions w.service) with
  | none => exact .pure none
  | some admission =>
    obtain ⟨queued, hqueued, hrequest, -⟩ := Admit.admitBackfillWithPolicy_mem hgranted
    refine follows_check_bind fun _ _ => (grantLease_follows ⟨queued, hqueued, by rw [hrequest]⟩).bind
      fun lease t _ => ?_
    exact ((openEnforcedBindings_drifts lease).bind fun _ => (moving_drifts pump_moving).bind fun _ =>
      (moving_drifts (maybeActivate_moving lease)).bind fun _ => .pure _) t

theorem admitOneWithPolicy_stirs (policy : AdmissionPolicy) :
    Moving (Stir licence) (admitOneWithPolicy policy) := drifting_stirs (admitOneWithPolicy_drifts policy)

/-! Groups. What is done to them stands between one mint and its request. -/

theorem regroup_stirs (h : licence.groups) {f : ServiceState → ServiceState}
    (hf : ∀ state, f state = { state with
      serviceGroups := (f state).serviceGroups
      groupMembers := (f state).groupMembers
      memberGroups := (f state).memberGroups
      groupRestarts := (f state).groupRestarts
      groupLastRestart := (f state).groupLastRestart
      memberPins := (f state).memberPins }) : Moving (Stir licence) (updateState f) := by
  intro w
  have hstir := Stir.regroup (w := w) h (f w.service.state).serviceGroups
    (f w.service.state).groupMembers (f w.service.state).memberGroups
    (f w.service.state).groupRestarts (f w.service.state).groupLastRestart
    (f w.service.state).memberPins
  rw [← hf] at hstir
  exact Relation.ReflTransGen.single hstir

theorem registerServiceGroup_stirs (h : licence.groups) (group : ServiceGroup) :
    Moving (Stir licence) (registerServiceGroup group) :=
  (check_moving _).bind fun _ => (regroup_stirs h fun _ => rfl).bind fun _ => persist_stirs

theorem scaleServiceGroup_stirs (h : licence.groups) (id : String) (target : Nat) :
    Moving (Stir licence) (scaleServiceGroup id target) := by
  unfold scaleServiceGroup
  refine self_moving.bind fun s => ?_
  split
  · exact .throw _
  · split
    · exact .ite (.throw _) ((regroup_stirs h fun _ => rfl).bind fun _ => persist_stirs.bind fun _ =>
        .pure _)
    · exact .throw _

theorem removeServiceGroup_stirs (h : licence.groups) (id : String) :
    Moving (Stir licence) (removeServiceGroup id) :=
  (regroup_stirs h fun _ => rfl).bind fun _ => persist_stirs

theorem dropDead_stirs (h : licence.groups) (group : ServiceGroup) :
    Moving (Stir licence) (dropDead group) := by
  unfold dropDead
  refine self_moving.bind fun s => (regroup_stirs h fun _ => rfl).bind fun _ => ?_
  exact .ite ((regroup_stirs h fun _ => rfl).bind fun _ => .pure _) (.pure _)

theorem kept_stirs (s t : World) (h : Stir licence s t) (hs : Kept s) : Kept t := h.kept hs

/-- A member is queued under the id its group mints. -/
theorem submitMember_stirs (h : licence.groups) (group : ServiceGroup) (replaces : Bool)
    (pin : Option NodeId) : Moving (Stir licence) (submitMember group replaces pin) := by
  unfold submitMember
  extract_lets rest
  have hrest : ∀ done, Moving (Stir licence) (rest done) := by
    intro done w
    let id : RequestId := ⟨w.service.state.nextRequestId⟩
    have henroll : ∀ pins, Stir licence w _ := fun pins => .enroll h (group.member id) group.owner pins
      (w.service.state.memberGroups.insert id group.id)
      (OrdMap.upsert w.service.state.groupMembers group.id ∅ fun members => members.insert id ()) rfl
    exact (Relation.ReflTransGen.single (henroll _)).tail (.enlist h group.id id replaces)
  exact .ite (self_moving.bind fun _ => (regroup_stirs h fun _ => rfl).bind hrest) (hrest ())

theorem replacementsOf_stirs (h : licence.groups) (group : ServiceGroup) :
    Moving (Stir licence) (replacementsOf group) :=
  self_moving.bind fun _ => (regroup_stirs h fun _ => rfl).bind fun _ => .pure _

theorem noteRestart_stirs (h : licence.groups) (group : ServiceGroup) :
    Moving (Stir licence) (noteRestart group) := fun w => .single (.regroup h
  w.service.state.serviceGroups w.service.state.groupMembers w.service.state.memberGroups
  w.service.state.groupRestarts
  (w.service.state.groupLastRestart.insert group.id w.service.cluster.now)
  w.service.state.memberPins)

theorem reconcilePerMachine_stirs (h : licence.groups) (group : ServiceGroup) (machines : List NodeId)
    (live : List RequestId) (died : Nat) :
    Moving (Stir licence) (reconcilePerMachine group machines live died) := by
  unfold reconcilePerMachine
  refine self_moving.bind fun s => .ite (.pure []) ?_
  refine (replacementsOf_stirs h group).bind fun count => .ite (.pure []) ?_
  refine self_moving.bind fun s => .ite (.pure []) ?_
  exact .bind (.mapM fun machine _ => submitMember_stirs h group _ _) fun _ =>
    (noteRestart_stirs h group).bind fun _ => .pure _

theorem cancelMember_stirs (h : licence.groups) (request : RequestId) :
    Moving (Stir licence) (cancelMember request) := fun _ => .single (.cancel h request)

theorem stopMember_stirs (h : licence.groups) (progress : Nat × List RequestId) (member : RequestId) :
    Moving (Stir licence) (stopMember progress member) := by
  unfold stopMember
  refine .ite (.pure _) (self_moving.bind fun s => ?_)
  split
  · refine (tolerate_moving (moving_stirs (revoke_moving _))).bind fun revoked => ?_
    split
    · exact .pure _
    · exact .pure _
  · exact .ite ((cancelMember_stirs h member).bind fun _ => .pure _) (.pure _)

theorem scaleDown_stirs (h : licence.groups) (group : ServiceGroup) (excess : Nat)
    (live : List RequestId) : Moving (Stir licence) (scaleDown group excess live) :=
  (Moving.foldlM (fun progress member _ => stopMember_stirs h progress member) _).bind fun _ =>
    (regroup_stirs h fun _ => rfl).bind fun _ => .pure _

theorem fillGroup_stirs (h : licence.groups) (group : ServiceGroup) (desired : Nat)
    (live : List RequestId) (died : Nat) :
    Moving (Stir licence) (fillGroup group desired live died) := by
  unfold fillGroup
  refine .ite (.pure []) ((replacementsOf_stirs h group).bind fun count => self_moving.bind fun s => ?_)
  refine .bind (.mapM fun index _ => submitMember_stirs h group _ _) fun _ => ?_
  exact .ite ((noteRestart_stirs h group).bind fun _ => .pure _) (.pure _)

theorem reconcileGroup_stirs (h : licence.groups) (machines : List NodeId) (group : ServiceGroup) :
    Moving (Stir licence) (reconcileGroup machines group) := by
  unfold reconcileGroup
  refine (dropDead_stirs h group).bind fun found => ?_
  obtain ⟨live, died⟩ := found
  dsimp only
  split
  · exact reconcilePerMachine_stirs h _ _ _ _
  · exact .ite ((scaleDown_stirs h _ _ _).bind fun _ => fillGroup_stirs h _ _ _ _)
      (fillGroup_stirs h _ _ _ _)

theorem reconcileServiceGroups_stirs (h : licence.groups) :
    Moving (Stir licence) reconcileServiceGroups :=
  self_moving.bind fun _ => .bind (.mapM fun group _ => reconcileGroup_stirs h _ group) fun _ =>
    persist_stirs.bind fun _ => .pure _

theorem opening_follows {command : Command} (h : licence.leases) (hopens : opensLease command) :
    Follows (Drift licence) w (commit command) := by
  unfold Follows
  cases happly : Cluster.apply command w.service.cluster with
  | ok effects cluster =>
    rw [after_of_ok (commit_run_ok happly)]
    exact .single (.opening h hopens happly)
  | error e left =>
    rw [after_of_error (commit_run_error happly)]
    exact .single (.move (.refuse happly))

theorem restoreLast_stirs (h : licence.restores) : Moving (Stir licence) restoreLast := by
  intro w
  unfold Follows after restoreLast
  cases hlast : lastPersisted w.trace with
  | none => exact .refl
  | some state => exact .single (.restore h hlast)

end Service

/-- What an operation brings from outside is licensed. -/
def Operation.Permitted (licence : Licence) (w : World) : Operation → Prop
  | submit workload _ =>
    licence.requests ∨ w.service.state.nextRequestId ≤ workload.resources.id.asU64
  | apply command => (isHello command → licence.sessions) ∧ (opensLease command → licence.leases)
  | registerServiceGroup _ | scaleServiceGroup _ _ | removeServiceGroup _ | reconcileServiceGroups =>
    licence.groups
  | restoreLast => licence.restores
  | queueRestarts => licence.restarts
  | _ => True

/-- What takes in requests, writes the groups or goes back to what was saved. -/
def Operation.isIntake : Operation → Bool
  | submit _ _ | queueRestarts | registerServiceGroup _ | scaleServiceGroup _ _ | removeServiceGroup _
  | reconcileServiceGroups | restoreLast => true
  | _ => false

open Service in
/-- Every other operation drifts. -/
theorem Operation.drifts {licence : Licence} {operation : Operation} {w : World}
    (hintake : operation.isIntake = false) (hw : Grounded w) (h : operation.Permitted licence w) :
    Follows (Drift licence) w operation.program := by
  cases operation with
  | submit | queueRestarts | registerServiceGroup | scaleServiceGroup | removeServiceGroup
  | reconcileServiceGroups | restoreLast => cases hintake
  | admitOne policy => exact ((admitOneWithPolicy_drifts policy).bind fun _ => .pure _) w
  | register description capabilities =>
    exact guided_drifts (Guided.bind Move.grounded
      (registerAgentWithCapabilities_follows description capabilities) fun _ => .pure _) w hw
  | revoke lease => exact moving_drifts (revoke_moving lease) w
  | expireDue => exact moving_drifts (expireDue_moving.bind fun _ => .pure _) w
  | tick now => exact moving_drifts ((tick_moving now).bind fun _ => .pure _) w
  | markMachineUnhealthy machine => exact moving_drifts (markMachineUnhealthy_moving machine) w
  | apply command =>
    obtain ⟨hsessions, hleases⟩ := h
    cases hhello : isHello command with
    | true =>
      cases command with
      | setAgentSession machine session =>
        refine guided_drifts (fun t _ => ?_) w hw
        refine (hello_follows fun hown => ?_).bind fun _ t _ => pump_moving t
        simp [hsessions hhello] at hown
      | _ => cases hhello
    | false =>
      cases hopens : opensLease command with
      | false =>
        have hplain : isGuarded command = false := by simp [isGuarded, hhello, hopens]
        exact moving_drifts ((commit_follows hplain).bind fun _ => pump_moving) w
      | true =>
        exact (opening_follows (hleases hopens) hopens).bind fun _ t _ => moving_drifts pump_moving t
  | drive arrivals => exact guided_drifts (drive_follows arrivals) w hw
  | collectCompletions =>
    exact guided_drifts (Guided.bind Move.grounded collectCompletions_follows fun _ => .pure _) w hw
  | probeAgents => exact moving_drifts probeAgents_moving w
  | post tag reply => exact .single (.move (.inert _ _ _ _ _ _))
  | loseAgent machine => exact .single (.move (.inert _ _ _ _ _ _))
  | takeUnreachable => exact .single (.move (.inert _ _ _ _ _ _))
  | takeRecoveryEvents => exact .single (.move (.inert _ _ _ _ _ _))

open Service in
/-- Every licensed operation follows the moves. -/
theorem Operation.stirs {licence : Licence} {operation : Operation} {w : World} (hw : Kept w)
    (h : operation.Permitted licence w) : Follows (Stir licence) w operation.program := by
  have hdrifts := fun hintake => (Operation.drifts hintake hw.now.grounded h).weaken fun _ _ => Drift.stir
  cases operation with
  | submit workload owner => exact submit_follows owner h
  | queueRestarts => exact (queueRestarts_follows h hw.now.numbered).bind fun _ _ _ => .pure _
  | registerServiceGroup group => exact registerServiceGroup_stirs h group w
  | scaleServiceGroup id target => exact ((scaleServiceGroup_stirs h id target).bind fun _ => .pure _) w
  | removeServiceGroup id => exact removeServiceGroup_stirs h id w
  | reconcileServiceGroups => exact (reconcileServiceGroups_stirs h w).bind fun _ _ _ => .pure _
  | restoreLast => exact restoreLast_stirs h w
  | _ => exact hdrifts rfl

end Archon.Node
