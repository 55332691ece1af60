import Archon.Control.Leases
import Archon.Node.Holding
import Archon.Node.Requests

/-! What the answer to a submission says. A submission queues its request and admits one
request, whichever is first, so the answer is about two requests: the one that was queued and
the one that got a lease. -/
namespace Archon.Control
open Archon.Kernel Archon.Node Archon.Node.Service Fallible
variable {w u v : World} {trace : List Entry} {cluster : Cluster} {state : ServiceState} {α : Type}

/-! Reachable planes. -/

/-- What is held of a plane from one boot to the next. -/
structure Sane (w : World) : Prop where
  kept : Kept w
  owned : Durably Owned w
  custodian : Custodian w

theorem Stir.sane (h : Stir plane w u) (hlasts : ¬Exhausted w.trace) (hw : Sane w) : Sane u where
  kept := h.kept hw.kept
  owned := hw.owned.step h.saves (Stir.owned h hlasts hw.kept hw.owned.now)
  custodian := h.custodian rfl rfl hlasts hw.kept hw.custodian

theorem sane_boot (hcluster : cluster.Reachable) (hstate : Numbered state) (howned : Owned cluster state)
    (hentrusted : Entrusted trace cluster state) (durableSink : Bool) :
    Sane (Process.boot cluster state durableSink).world where
  kept := Process.kept_boot hcluster hstate durableSink
  owned := ⟨howned, fun entry hentry => by cases hentry⟩
  custodian := ⟨entrusted_nil hentrusted, .nil⟩

/-- What the plane's changes leave is as sane as what they met, while ids last. -/
theorem sane_of_follows {program : ServiceM α} (h : Follows (Stir plane) w program) (hw : Sane w)
    (hlasts : ¬Exhausted (after program w).trace) : Sane (after program w) := by
  have hkeeps : ∀ t u, Stir plane t u → Exhausted t.trace ∨ Sane t → Exhausted u.trace ∨ Sane u := by
    intro t u hstir ht
    exact hstir.lasting ht (Stir.sane hstir)
  exact (h.preserves hkeeps (.inr hw)).resolve_left hlasts

theorem not_exhausted_nil : ¬Exhausted [] := by
  rintro ⟨entry, hentry, -⟩
  cases hentry

theorem Reachable.lasts (h : Reachable w) : ¬Exhausted w.trace := by
  cases h with
  | step _ _ _ hroom => exact hroom
  | boot | compacted | recovered => exact not_exhausted_nil

theorem Reachable.sane (h : Reachable w) : Sane w := by
  induction h with
  | boot =>
    refine ⟨Process.kept_new true, ⟨⟨fun id hid => ?_, by decide⟩, fun entry hentry => ?_⟩,
      ⟨Process.inCustody_new true, .nil⟩⟩
    · exact absurd (by simp [Process.new, Process.boot, Cluster.new]) hid
    · cases hentry
  | @step w _ event _ hroom ih => exact sane_of_follows (event.stirs w ih.kept) ih hroom
  | compacted h ih =>
    have hnumbered := ih.kept.now.numbered.resolve_left h.lasts
    exact sane_boot ih.kept.now.grounded hnumbered ih.owned.now ih.custodian.now true
  | @recovered w entry command _ event hroom hentry hseen ih =>
    have hafter := sane_of_follows (event.stirs w ih.kept) ih hroom
    obtain ⟨before, rest, heq⟩ := List.append_of_mem hentry
    have hsaved := hafter.kept.saved entry hentry _ hseen
    exact sane_boot hsaved.grounded (hsaved.numbered.resolve_left hroom)
      (hafter.owned.saved entry hentry _ hseen) (hafter.custodian.saved before entry rest heq _ hseen) true

/-! One admission. -/

/-- A step of an admission after its lease is opened. -/
inductive Opens (w : World) : World → Prop where
  | move {t : World} (h : Move true w t) : Opens w t
  | bind (next : UInt64) : Opens w (w.setState { w.service.state with nextBinding := next })

/-- The queue, the requests, their payloads and the table of leases have not changed. -/
structure Settles (w u : World) : Prop where
  queue : u.service.state.queue = w.service.state.queue
  requests : u.service.state.requests = w.service.state.requests
  payloads : u.service.state.queuedWorkloads = w.service.state.queuedWorkloads
  keys : ∀ id : LeaseId, u.service.cluster.leases[id]? = none ↔ w.service.cluster.leases[id]? = none

theorem Settles.refl : Settles w w := ⟨rfl, rfl, rfl, fun _ => Iff.rfl⟩

theorem Settles.inPlace (h : Settles w u) (hw : InPlace trace w.service.cluster w.service.state) :
    InPlace trace u.service.cluster u.service.state := by
  refine hw.keep h.queue h.requests h.payloads (fun _ htaken => htaken) fun id lease hlease => ?_
  refine Option.ne_none_iff_exists'.mp fun hnone => ?_
  rw [(h.keys id).mp hnone] at hlease
  cases hlease

theorem Opens.grounded (h : Opens w u) (hw : Grounded w) : Grounded u := by
  cases h with
  | move hmove => exact Move.grounded w u hmove hw
  | bind => exact hw

theorem Opens.settles (h : Opens w u) (hw : Grounded w) : Settles w u := by
  cases h with
  | move hmove =>
    obtain ⟨next, hstate⟩ := Move.keeps_state hmove
    exact ⟨by rw [hstate], by rw [hstate], by rw [hstate], Move.leaseKeys hmove hw⟩
  | bind => exact ⟨rfl, rfl, rfl, fun _ => Iff.rfl⟩

theorem settles_of_follows {program : ServiceM α} (h : Follows Opens w program) (hw : Grounded w) :
    Settles w (after program w) := by
  have hkeeps : ∀ t u, Opens t u → Grounded t ∧ Settles w t → Grounded u ∧ Settles w u := by
    rintro t u hopens ⟨ht, hsettles⟩
    have hnext := hopens.settles ht
    refine ⟨hopens.grounded ht, hnext.queue.trans hsettles.queue, ?_, ?_, fun id => ?_⟩
    · exact hnext.requests.trans hsettles.requests
    · exact hnext.payloads.trans hsettles.payloads
    · exact (hnext.keys id).trans (hsettles.keys id)
  exact (h.preserves hkeeps ⟨hw, .refl⟩).2

theorem moving_opens {program : ServiceM α} (h : Moving (Move true) program) : Moving Opens program :=
  fun w => (h w).weaken fun _ _ => .move

theorem openEnforcedBinding_opens (lease : LeaseId) (claim : Claim) :
    Moving Opens (openEnforcedBinding lease claim) := by
  unfold openEnforcedBinding
  refine self_moving.bind fun _ => (check_moving _).bind fun contract => fun w => ?_
  refine follows_self (follows_update_bind (.bind _) ?_)
  exact (commit_follows rfl _).weaken fun _ _ => .move

theorem openLease_opens (lease : LeaseId) (chosen : RequestId) : Moving Opens (do
    openEnforcedBindings lease
    pump
    maybeActivate lease
    return some chosen) := by
  refine Moving.bind ?_ fun _ => (moving_opens pump_moving).bind fun _ =>
    (moving_opens (maybeActivate_moving lease)).bind fun _ => .pure _
  exact self_moving.bind fun _ => (check_moving _).bind fun _ => .forM fun claim _ => openEnforcedBinding_opens lease claim

theorem openLease_outcome {lease : LeaseId} {chosen : RequestId} {outcome : Option RequestId} (h : (do
    openEnforcedBindings lease
    pump
    maybeActivate lease
    return some chosen) w = .ok outcome u) : outcome = some chosen := by
  obtain ⟨_, _, -, h⟩ := bind_ok.mp h
  obtain ⟨_, _, -, h⟩ := bind_ok.mp h
  obtain ⟨_, _, -, h⟩ := bind_ok.mp h
  exact (pure_ok.mp h).1.symm

/-- An admission that picks nothing changes nothing; one that grants opens the next lease for
a request of the queue. -/
inductive Admits (w u : World) : Option RequestId → Prop where
  | nothing (h : u = w) : Admits w u none
  | granted {chosen : RequestId} (hchosen : chosen ∈ w.service.state.queuedIds)
      (hwaits : ∀ id ∈ w.service.state.queuedIds, id ≠ chosen → id ∈ u.service.state.queuedIds)
      (hcarried : u.service.state.carriedBy ⟨w.service.state.nextLease⟩ = some chosen)
      (hnew : w.service.cluster.leases[(⟨w.service.state.nextLease⟩ : LeaseId)]? = none)
      (hkeys : ∀ id : LeaseId, u.service.cluster.leases[id]? ≠ none ↔
        id = ⟨w.service.state.nextLease⟩ ∨ w.service.cluster.leases[id]? ≠ none) : Admits w u (some chosen)

theorem admitOne_admits {outcome : Option RequestId} (hw : Grounded w) (howned : Owned w.service.cluster w.service.state)
    (hentrusted : Entrusted trace w.service.cluster w.service.state) (h : admitOne w = .ok outcome u) :
    Admits w u outcome := by
  unfold admitOne admitOneWithPolicy at h
  rw [self_bind_run] at h
  cases hgranted : w.service.cluster.admitBackfillWithPolicy w.service.state.queue .default
      (executionExclusions w.service) with
  | none =>
    rw [hgranted] at h
    cases h
    exact .nothing rfl
  | some admission =>
    rw [hgranted] at h
    obtain ⟨_, t, hvalid, h⟩ := bind_ok.mp h
    obtain ⟨-, rfl⟩ := check_ok.mp hvalid
    obtain ⟨lease, t, hgrant, h⟩ := bind_ok.mp h
    obtain ⟨queued, hmem, hrequest, -⟩ := Admit.admitBackfillWithPolicy_mem hgranted
    obtain ⟨index, found, hindex, hfind, hqueued, hid⟩ := queue_position ⟨queued, hmem, congrArg Request.id hrequest⟩
    rw [grantLease_run hindex hfind] at hgrant
    cases happly : Cluster.apply (w.openCommand admission) w.service.cluster with
    | error e left =>
      rw [happly] at hgrant
      cases hgrant
    | ok effects cluster =>
      rw [happly] at hgrant
      cases hgrant
      obtain rfl := openLease_outcome h
      have hopen : Grounded ((w.draw.setState (w.service.state.admitted admission index)).commit
          (w.openCommand admission) effects cluster) := by
        unfold Grounded
        rw [service_commit]
        exact Cluster.Reachable.apply_ok hw happly
      have hsettles := settles_of_follows
        (openLease_opens ⟨w.service.state.nextLease⟩ admission.request.id _) hopen
      rw [after_of_ok h] at hsettles
      have hqueue := hsettles.queue
      have hrequests := hsettles.requests
      have hkeys := hsettles.keys
      rw [service_commit] at hqueue hrequests hkeys
      have hnew : w.service.cluster.leases[(⟨w.service.state.nextLease⟩ : LeaseId)]? = none := by
        by_contra hused
        exact UInt64.lt_irrefl _ (howned.below _ hused)
      obtain ⟨hopened, hothers⟩ := leaseKeys_of_open hw hnew happly
      refine .granted (List.mem_map.mpr ⟨found, List.mem_of_getElem? hqueued, hid⟩) (fun id hmem hne => ?_) ?_ hnew fun id => ?_
      · obtain ⟨other, hother, rfl⟩ := List.mem_map.mp hmem
        rw [ServiceState.queuedIds, hqueue]
        refine List.mem_map.mpr ⟨other, ?_, rfl⟩
        obtain ⟨position, hposition⟩ := List.mem_iff_getElem?.mp hother
        refine List.mem_eraseIdx_iff_getElem?.mpr ⟨position, ?_, hposition⟩
        rintro rfl
        rw [hqueued] at hposition
        cases hposition
        exact hne hid
      · rw [ServiceState.carriedBy, hrequests, World.setState, World.update, ServiceState.admitted, OrdMap.get_insert,
          if_pos rfl, Option.map_some, (hentrusted.payload hqueued hid).2]
      · refine (not_congr (hkeys id)).trans ?_
        constructor
        · exact hothers id
        · rintro (rfl | hbefore)
          · exact hopened
          · obtain ⟨lease, hlease⟩ := Option.ne_none_iff_exists'.mp hbefore
            obtain ⟨later, hlater⟩ := (Turns.applied _ _ happly).leaseKept hw hlease
            rw [show (cluster.leases)[id]? = some later from hlater]
            exact Option.some_ne_none _

theorem grantLease_inPlace {admission : Admission} (hw : Grounded w)
    (hentrusted : Entrusted trace w.service.cluster w.service.state)
    (hqueue : ∃ queued ∈ w.service.state.queue, queued.request.id = admission.request.id) :
    InPlace trace (after (grantLease admission) w).service.cluster (after (grantLease admission) w).service.state := by
  obtain ⟨index, found, hindex, hfind, hqueued, hid⟩ := queue_position hqueue
  have hrun := grantLease_run hindex hfind
  cases happly : Cluster.apply (w.openCommand admission) w.service.cluster with
  | error e left =>
    obtain rfl := Cluster.Reachable.refused hw happly
    rw [happly, hentrusted.returned_eq hqueued hid] at hrun
    rw [after_of_error hrun]
    exact hentrusted.toInPlace.keep rfl rfl rfl (fun _ htaken => htaken) fun _ lease hlease => ⟨lease, hlease⟩
  | ok effects cluster =>
    rw [happly] at hrun
    rw [after_of_ok hrun, service_commit]
    exact hentrusted.admitted_inPlace hqueued hid (lease_of_open happly) fun id lease hlease =>
      (Turns.applied _ _ happly).leaseKept hw hlease

theorem grantLease_grounded {admission : Admission} (hw : Grounded w)
    (hqueue : ∃ queued ∈ w.service.state.queue, queued.request.id = admission.request.id) :
    Grounded (after (grantLease admission) w) :=
  (@grantLease_follows plane w admission hqueue).preserves (fun _ _ hdrift => hdrift.stir.grounded) hw

/-- An admission leaves the requests in custody, also one that fails on its way. -/
theorem admitOne_inPlace (hw : Grounded w) (hentrusted : Entrusted trace w.service.cluster w.service.state) :
    InPlace trace (after admitOne w).service.cluster (after admitOne w).service.state := by
  let inv : World → Prop := fun u => InPlace trace u.service.cluster u.service.state
  have hbefore : inv w := hentrusted.toInPlace
  unfold admitOne admitOneWithPolicy
  refine @after_bind _ _ _ _ inv _ _ w hbefore fun s t ht => ?_
  cases ht
  cases hgranted : w.service.cluster.admitBackfillWithPolicy w.service.state.queue .default
      (executionExclusions w.service) with
  | none => exact hbefore
  | some admission =>
    obtain ⟨queued, hmem, hrequest, -⟩ := Admit.admitBackfillWithPolicy_mem hgranted
    have hqueue : ∃ queued ∈ w.service.state.queue, queued.request.id = admission.request.id :=
      ⟨queued, hmem, congrArg Request.id hrequest⟩
    refine @after_bind _ _ _ _ inv _ _ w (by rw [after_check]; exact hbefore) fun _ t ht => ?_
    obtain ⟨-, rfl⟩ := check_ok.mp ht
    have hplaced : inv (after (grantLease admission) w) := grantLease_inPlace hw hentrusted hqueue
    refine @after_bind _ _ _ _ inv _ _ w hplaced fun lease t ht => ?_
    have hgrounded := grantLease_grounded hw hqueue
    rw [after_of_ok ht] at hplaced hgrounded
    exact (settles_of_follows (openLease_opens lease admission.request.id t) hgrounded).inPlace hplaced

/-! The answer. -/

theorem foldl_max_eq {ids : List LeaseId} {top low : UInt64} (hids : ∀ id ∈ ids, id.asU64 ≤ top) (hlow : low ≤ top)
    (htop : low = top ∨ (⟨top⟩ : LeaseId) ∈ ids) :
    ids.foldl (fun newest lease => max newest lease.asU64) low = top := by
  induction ids generalizing low with
  | nil => exact htop.resolve_right (by simp)
  | cons id rest ih =>
    have hid := UInt64.le_iff_toNat_le.mp (hids id List.mem_cons_self)
    have hbase := UInt64.le_iff_toNat_le.mp hlow
    refine ih (fun other hother => hids other (List.mem_cons_of_mem _ hother)) ?_ ?_
    · rw [UInt64.le_iff_toNat_le, toNat_max]
      exact Nat.max_le.mpr ⟨hbase, hid⟩
    · rw [← UInt64.toNat_inj, toNat_max]
      rcases htop with rfl | hmem
      · exact .inl (Nat.max_eq_left hid)
      · rcases List.mem_cons.mp hmem with rfl | hrest
        · exact .inl (Nat.max_eq_right hbase)
        · exact .inr hrest

theorem leaseOfRequest_granted {top : UInt64} (hbelow : ∀ id : LeaseId, w.service.cluster.leases[id]? ≠ none → id.asU64 < top)
    (hkeys : ∀ id : LeaseId, u.service.cluster.leases[id]? ≠ none ↔ id = ⟨top⟩ ∨ w.service.cluster.leases[id]? ≠ none) :
    leaseOfRequest u.service = top := by
  have hmem : ∀ id : LeaseId, id ∈ u.service.cluster.leases.keys ↔ u.service.cluster.leases[id]? ≠ none := fun id => by
    rw [Std.ExtTreeMap.mem_keys, OrdMap.mem_iff, Option.ne_none_iff_exists']
  refine foldl_max_eq (fun id hid => ?_) UInt64.zero_le (.inr ?_)
  · rcases (hkeys id).mp ((hmem id).mp hid) with rfl | hbefore
    · exact UInt64.le_refl _
    · exact UInt64.le_of_lt (hbelow id hbefore)
  · exact (hmem _).mpr ((hkeys _).mpr (.inl rfl))

/-- What the answer to a submission says of its request. -/
inductive Answered (w u : World) (spec : SubmitSpec) (id : RequestId) : ServerResponse → Prop where
  /-- A submission that does not compile leaves everything as it was. -/
  | refused {reason : String} (hspec : compileSubmission w.service spec = .error reason) (h : u = w) :
      Answered w u spec id (.error (.text reason))
  /-- An admission that fails leaves the request queued or with a lease. -/
  | failed {workload : WorkloadSpec} {e : Error} (hspec : compileSubmission w.service spec = .ok workload)
      (honce : ExactlyOnce u.service.cluster u.service.state id) : Answered w u spec id (.error (.failed e))
  | waiting {workload : WorkloadSpec} (hspec : compileSubmission w.service spec = .ok workload)
      (honce : ExactlyOnce u.service.cluster u.service.state id) (hqueued : id ∈ u.service.state.queuedIds) :
      Answered w u spec id (.submitted id 0)
  /-- The lease is new and is that of the request admitted, which need not be the one submitted. -/
  | placed {workload : WorkloadSpec} {lease : UInt64} {chosen : RequestId}
      (hspec : compileSubmission w.service spec = .ok workload)
      (honce : ExactlyOnce u.service.cluster u.service.state id) (hlease : lease ≠ 0)
      (hnew : w.service.cluster.leases[(⟨lease⟩ : LeaseId)]? = none)
      (hopened : u.service.cluster.leases[(⟨lease⟩ : LeaseId)]? ≠ none)
      (hcarried : u.service.state.carriedBy ⟨lease⟩ = some chosen)
      (hchosen : chosen = id ∨ chosen ∈ w.service.state.queuedIds ∧ id ∈ u.service.state.queuedIds) :
      Answered w u spec id (.submitted id lease)

/-- What a submission to the service leaves. -/
structure Queues (w v : World) (workload : WorkloadSpec) (owner : OwnerId) : Prop where
  cluster : v.service.cluster = w.service.cluster
  state : v.service.state = w.service.state.enqueued workload owner w.service.cluster.now
  entrusted : ∃ service, Entrusted [⟨service, .accepted workload.resources.id⟩] v.service.cluster v.service.state

theorem submit_queues {workload : WorkloadSpec} {owner : OwnerId} (hw : Sane w)
    (hlasts : ¬Exhausted w.trace) (hid : workload.resources.id = ⟨w.service.state.nextRequestId⟩)
    (h : Service.submit workload owner w = .ok () v) : Queues w v workload owner := by
  have hnew : w.service.state.nextRequestId ≤ workload.resources.id.asU64 := by
    rw [hid]
    exact UInt64.le_refl _
  obtain ⟨hunqueued, hunused⟩ := unused_of_fresh (hw.kept.now.numbered.resolve_left hlasts) (.inr hnew)
  have hrun : v.service = (w.enqueue workload owner).service := by
    rw [Service.submit] at h
    obtain ⟨_, t, ht, h⟩ := bind_ok.mp h
    cases ht
    rw [persist_run] at h
    cases h
    split <;> rfl
  refine ⟨by rw [hrun]; rfl, by rw [hrun]; rfl, w.service, ?_⟩
  rw [hrun]
  exact (entrusted_nil hw.custodian.now).enqueued workload owner w.service.cluster.now hunqueued hunused

/-- In every state of the plane, through whatever crashes, compactions and requests it came, a
submission is answered as follows: an answer that the request is refused leaves no trace of it,
and after every other answer, a failure too, it is queued or carried by one lease. The lease that
is named is new and is that of the request admitted. -/
theorem submit_answers {spec : SubmitSpec} {response : ServerResponse} (hw : Reachable w)
    (h : submit spec w = .ok response u) :
    (⟨w.service.state.nextRequestId⟩ : RequestId) ∉ w.service.state.queuedIds ∧
      (∀ lease, w.service.state.carriedBy lease ≠ some ⟨w.service.state.nextRequestId⟩) ∧
      Answered w u spec ⟨w.service.state.nextRequestId⟩ response := by
  have hsane := hw.sane
  obtain ⟨hunqueued, hunused⟩ := unused_of_fresh (hsane.kept.now.numbered.resolve_left hw.lasts)
    (.inr (UInt64.le_refl w.service.state.nextRequestId) : Fresh _ ⟨w.service.state.nextRequestId⟩ ∨ _)
  refine ⟨hunqueued, hunused, ?_⟩
  unfold submit at h
  rw [self_bind_run] at h
  cases hspec : compileSubmission w.service spec with
  | error reason =>
    rw [hspec] at h
    cases h
    exact .refused hspec rfl
  | ok workload =>
    rw [hspec] at h
    obtain ⟨_, v, hsubmit, h⟩ := bind_ok.mp h
    have hid := compileSubmission_id hspec
    have hv := submit_queues hsane hw.lasts hid hsubmit
    obtain ⟨service, hentrusted⟩ := hv.entrusted
    have hgrounded : Grounded v := by
      unfold Grounded
      rw [hv.cluster]
      exact hsane.kept.now.grounded
    have howned : Owned v.service.cluster v.service.state := by
      rw [hv.cluster, hv.state]
      exact ⟨hsane.owned.now.below, hsane.owned.now.positive⟩
    have hafter := admitOne_inPlace hgrounded hentrusted
    have htaken : Taken [⟨service, .accepted workload.resources.id⟩] ⟨w.service.state.nextRequestId⟩ := by
      rw [hid]
      exact ⟨⟨_, List.mem_cons_self, rfl⟩, by simp⟩
    have hqueued : v.service.state.queuedIds = w.service.state.queuedIds ++ [⟨w.service.state.nextRequestId⟩] := by
      rw [hv.state, ← hid]
      exact List.map_append
    obtain ⟨result, t, hadmit, h⟩ := bind_ok.mp h
    have honce := hafter.exactlyOnce htaken
    unfold caught at hadmit
    cases hrun : admitOne v with
    | error fault t' =>
      cases fault with
      | panic =>
        rw [hrun] at hadmit
        cases hadmit
      | err e =>
        rw [after_of_error hrun] at honce
        rw [hrun] at hadmit
        cases hadmit
        cases h
        exact .failed hspec honce
    | ok outcome t' =>
      rw [after_of_ok hrun] at honce
      have hadmits := admitOne_admits hgrounded howned hentrusted hrun
      rw [hrun] at hadmit
      cases hadmit
      cases hadmits with
      | nothing heq =>
        cases h
        refine .waiting hspec honce ?_
        rw [heq, hqueued]
        exact List.mem_append_right _ (List.mem_singleton_self _)
      | @granted chosen hchosen hwaits hcarried hnew hkeys =>
        have hnewest := leaseOfRequest_granted howned.below hkeys
        obtain ⟨_, _, hself, h⟩ := bind_ok.mp h
        cases hself
        cases h
        rw [hnewest]
        refine .placed hspec honce ?_ ?_ ((hkeys _).mpr (.inl rfl)) hcarried ?_
        · have hpositive := howned.positive
          exact fun hzero => UInt64.lt_irrefl _ (hzero ▸ hpositive)
        · rw [← hv.cluster]
          exact hnew
        · rw [hqueued] at hchosen hwaits
          rcases List.mem_append.mp hchosen with hold | hown
          · refine .inr ⟨hold, hwaits _ (List.mem_append_right _ (List.mem_singleton_self _)) ?_⟩
            rintro rfl
            exact hunqueued hold
          · exact .inl (List.mem_singleton.mp hown)

/-! A machine dials in, and one of its processors is asked for. -/
namespace Sample

def oneProcessor : SubmitSpec := ⟨1, ⟨1, 0, 100, ["run"], [], [], 0, none, 0⟩, false⟩

def dialled : Event := .dialIn Process.Sample.twoCpus Process.Sample.capable

def serving : World := after dialled.program (Process.new true).world

def panics : EStateM.Result Fault World α → Bool
  | .error .panic _ => true
  | _ => false

theorem alive_of_panics {outcome : EStateM.Result Fault World α} (h : panics outcome = false) (u : World) :
    outcome ≠ .error .panic u := by
  rintro rfl
  cases h

theorem serving_reachable : Reachable serving :=
  .step .boot dialled (alive_of_panics (by decide +kernel)) (by decide +kernel)

/-- The request, the lease that is named and the request this lease carries. -/
def placed : EStateM.Result Fault World ServerResponse → Option (RequestId × UInt64 × Option RequestId)
  | .ok (.submitted id lease) u => some (id, lease, u.service.state.carriedBy ⟨lease⟩)
  | _ => none

theorem of_placed {outcome : EStateM.Result Fault World ServerResponse} {id : RequestId} {lease : UInt64}
    {carried : Option RequestId} (h : placed outcome = some (id, lease, carried)) :
    ∃ u, outcome = .ok (.submitted id lease) u ∧ u.service.state.carriedBy ⟨lease⟩ = carried := by
  unfold placed at h
  split at h
  · cases h
    exact ⟨_, rfl, rfl⟩
  · cases h

end Sample

/-- The answer names the first lease, which carries the request and nothing waits. -/
theorem sample_answered : ∃ u, submit Sample.oneProcessor Sample.serving = .ok (.submitted ⟨1⟩ 1) u ∧
    u.service.state.carriedBy ⟨1⟩ = some ⟨1⟩ ∧ ExactlyOnce u.service.cluster u.service.state ⟨1⟩ := by
  have hplaced : Sample.placed (submit Sample.oneProcessor Sample.serving) = some (⟨1⟩, 1, some ⟨1⟩) := by
    decide +kernel
  obtain ⟨u, hsubmit, hcarried⟩ := Sample.of_placed hplaced
  have hnext : Sample.serving.service.state.nextRequestId = 1 := by decide +kernel
  obtain ⟨-, -, hanswer⟩ := submit_answers Sample.serving_reachable hsubmit
  rw [hnext] at hanswer
  refine ⟨u, hsubmit, hcarried, ?_⟩
  cases hanswer with
  | placed hspec honce => exact honce

end Archon.Control
