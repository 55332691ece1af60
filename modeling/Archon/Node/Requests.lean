import Archon.Lib.Custody
import Archon.Node.Chronicle

/-! Custody of requests. A request that entered the queue and was not cancelled is in the
queue with its payload, or the payload of one lease that the cluster has; admission passes
it on, and a refused admission leaves everything where it was. -/
namespace Archon.Node
open Archon.Kernel Fallible Service

variable {own : Bool} {licence : Licence} {w u : World} {trace : List Entry} {cluster : Cluster}
  {state : ServiceState}

def Observation.isDeposit : Observation → Bool
  | .persisted _ => true
  | _ => false

/-- The request entered the queue and was never cancelled. -/
def Taken (trace : List Entry) (id : RequestId) : Prop :=
  (∃ entry ∈ trace, entry.seen = .accepted id) ∧ ∀ entry ∈ trace, entry.seen ≠ .cancelled id

instance decidableTaken (trace : List Entry) (id : RequestId) : Decidable (Taken trace id) :=
  inferInstanceAs (Decidable (_ ∧ _))

def ServiceState.queuedIds (state : ServiceState) : List RequestId :=
  state.queue.map fun queued => queued.request.id

/-- The request whose payload a lease carries. -/
def ServiceState.carriedBy (state : ServiceState) (lease : LeaseId) : Option RequestId :=
  state.requests[lease]?.map fun entry => entry.1.resources.id

/-- Requests are in custody, queued ones with their payload and carried ones by a lease of
the cluster. -/
structure InPlace (trace : List Entry) (cluster : Cluster) (state : ServiceState) : Prop where
  custody : Custody (Taken trace) state.queuedIds state.carriedBy
  payloads : ∀ queued ∈ state.queue, ∃ workload,
    state.queuedWorkloads[queued.request.id]? = some workload ∧ workload.resources = queued.request
  leased : ∀ (lease : LeaseId) entry, state.requests[lease]? = some entry →
    ∃ found, cluster.leases[lease]? = some found

/-- The lease counter is past every lease with a request. -/
structure Entrusted (trace : List Entry) (cluster : Cluster) (state : ServiceState) : Prop extends
    InPlace trace cluster state where
  below : ∀ (lease : LeaseId) entry, state.requests[lease]? = some entry →
    lease.asU64 < state.nextLease

/-! What is taken. -/

theorem taken_of_unaccepted {extra : List Entry} {id : RequestId}
    (h : ∀ entry ∈ extra, entry.seen ≠ .accepted id) (htaken : Taken (trace ++ extra) id) :
    Taken trace id := by
  obtain ⟨⟨entry, hentry, hseen⟩, hnever⟩ := htaken
  refine ⟨⟨entry, ?_, hseen⟩, fun other hother => hnever other (List.mem_append_left _ hother)⟩
  exact (List.mem_append.mp hentry).resolve_right fun hextra => h entry hextra hseen

theorem taken_of_unintended {extra : List Entry} {id : RequestId}
    (h : ∀ entry ∈ extra, entry.seen.isIntent = false) : Taken (trace ++ extra) id ↔ Taken trace id := by
  have hnot : ∀ entry ∈ extra, ∀ seen, seen.isIntent → entry.seen ≠ seen := by
    rintro entry hentry seen hintent rfl
    rw [h entry hentry] at hintent
    cases hintent
  refine ⟨taken_of_unaccepted fun entry hentry => hnot entry hentry _ rfl, ?_⟩
  rintro ⟨⟨entry, hentry, hseen⟩, hnever⟩
  refine ⟨⟨entry, List.mem_append_left _ hentry, hseen⟩, fun other hother => ?_⟩
  rcases List.mem_append.mp hother with hbefore | hextra
  · exact hnever other hbefore
  · exact hnot other hextra _ rfl

theorem taken_accepted {service : NodeService} {id other : RequestId}
    (h : Taken (trace ++ [⟨service, .accepted id⟩]) other) : Taken trace other ∨ other = id := by
  by_cases heq : other = id
  · exact .inr heq
  · refine .inl (taken_of_unaccepted (fun entry hentry hseen => heq ?_) h)
    rw [List.mem_singleton.mp hentry] at hseen
    cases hseen
    rfl

theorem taken_cancelled {service : NodeService} {id other : RequestId}
    (h : Taken (trace ++ [⟨service, .cancelled id⟩]) other) : Taken trace other ∧ other ≠ id := by
  refine ⟨taken_of_unaccepted (fun entry hentry hseen => ?_) h, ?_⟩
  · rw [List.mem_singleton.mp hentry] at hseen
    cases hseen
  · rintro rfl
    exact h.2 _ (List.mem_append_right _ (List.mem_singleton_self _)) rfl

/-! Leases stay in the table. -/

theorem Turns.leaseKept {c c' : Cluster} (h : Turns c c') (hc : c.Reachable) {id : LeaseId} {lease : Lease}
    (hlease : c.leases[id]? = some lease) : ∃ after, c'.leases[id]? = some after := by
  cases h with
  | same h => exact ⟨lease, by rw [h, hlease]⟩
  | clock now h => exact ⟨lease, by rw [h]; exact hlease⟩
  | applied command effects happly =>
    obtain ⟨after, hafter, -⟩ := (Cluster.leases_of_apply hc.wellFormed happly).kept id lease hlease
    exact ⟨after, hafter⟩

theorem lease_of_open {c c' : Cluster} {effects : List Effect} {id : LeaseId}
    (h : Cluster.apply (.openLease id owner allocation parent expiresAt deadline priority) c =
      .ok effects c') : ∃ lease, c'.leases[id]? = some lease := by
  obtain ⟨next, hstep, rfl⟩ := Cluster.step_of_apply h
  cases hstep with
  | retry hretry =>
    cases hretry with
    | openLease _ hlease => exact ⟨_, hlease⟩
  | enter _ _ hadmitted =>
    cases hadmitted
    simp
  | install _ hcase => cases hcase
  | annotate hcase => cases hcase
  | advance _ _ hcase => cases hcase
  | finish _ hcase => cases hcase
  | rebind _ hcase => cases hcase
  | restate hcase => cases hcase

/-! What each change leaves in custody. -/

theorem insertIdx_eraseIdx_self {α : Type} {items : List α} {index : Nat} {a : α}
    (h : items[index]? = some a) : (items.eraseIdx index).insertIdx index a = items := by
  induction items generalizing index with
  | nil => cases h
  | cons head tail ih =>
    cases index with
    | zero =>
      cases h
      rfl
    | succ index =>
      rw [List.eraseIdx_cons_succ, List.insertIdx_succ_cons, ih h]

theorem InPlace.keep {state' : ServiceState} {cluster' : Cluster} {trace' : List Entry}
    (h : InPlace trace cluster state) (hqueue : state'.queue = state.queue)
    (hrequests : state'.requests = state.requests)
    (hpayloads : state'.queuedWorkloads = state.queuedWorkloads)
    (htaken : ∀ id, Taken trace' id → Taken trace id)
    (hleases : ∀ (id : LeaseId) lease, cluster.leases[id]? = some lease →
      ∃ after, cluster'.leases[id]? = some after) : InPlace trace' cluster' state' where
  custody := by
    have hids : state'.queuedIds = state.queuedIds := by rw [ServiceState.queuedIds, hqueue]; rfl
    have hcarried : state'.carriedBy = state.carriedBy := by
      funext lease
      rw [ServiceState.carriedBy, hrequests]
      rfl
    rw [hids, hcarried]
    exact h.custody.mono htaken
  payloads := by
    rw [hqueue, hpayloads]
    exact h.payloads
  leased lease entry hentry := by
    rw [hrequests] at hentry
    obtain ⟨found, hfound⟩ := h.leased lease entry hentry
    exact hleases lease found hfound

namespace Entrusted

theorem keep {state' : ServiceState} {cluster' : Cluster} {trace' : List Entry}
    (h : Entrusted trace cluster state) (hqueue : state'.queue = state.queue)
    (hrequests : state'.requests = state.requests)
    (hpayloads : state'.queuedWorkloads = state.queuedWorkloads)
    (hnext : state'.nextLease = state.nextLease)
    (htaken : ∀ id, Taken trace' id → Taken trace id)
    (hleases : ∀ (id : LeaseId) lease, cluster.leases[id]? = some lease →
      ∃ after, cluster'.leases[id]? = some after) : Entrusted trace' cluster' state' where
  toInPlace := h.toInPlace.keep hqueue hrequests hpayloads htaken hleases
  below := by
    rw [hrequests, hnext]
    exact h.below

theorem enqueued {service : NodeService} (h : Entrusted trace cluster state) (workload : WorkloadSpec)
    (owner : OwnerId) (now : UInt64) (hqueue : workload.resources.id ∉ state.queuedIds)
    (hcarried : ∀ lease, state.carriedBy lease ≠ some workload.resources.id) :
    Entrusted (trace ++ [⟨service, .accepted workload.resources.id⟩]) cluster
      (state.enqueued workload owner now) where
  custody := by
    have hids : (state.enqueued workload owner now).queuedIds =
        state.queuedIds ++ [workload.resources.id] := List.map_append
    rw [hids]
    exact (h.custody.enqueue hqueue hcarried).mono fun _ => taken_accepted
  payloads queued hqueued := by
    rcases List.mem_append.mp hqueued with hbefore | hnew
    · have hne : workload.resources.id ≠ queued.request.id := fun heq =>
        hqueue (List.mem_map.mpr ⟨queued, hbefore, heq.symm⟩)
      obtain ⟨found, hfound, hresources⟩ := h.payloads queued hbefore
      refine ⟨found, ?_, hresources⟩
      rw [ServiceState.enqueued, OrdMap.get_insert, if_neg hne, hfound]
    · rw [List.mem_singleton.mp hnew]
      exact ⟨workload, by simp [ServiceState.enqueued], rfl⟩
  leased := h.leased
  below := h.below

theorem cancelled {service : NodeService} (h : Entrusted trace cluster state) (id : RequestId) :
    Entrusted (trace ++ [⟨service, .cancelled id⟩]) cluster (state.cancelled id) where
  custody := by
    have hids : (state.cancelled id).queuedIds = state.queuedIds.filter fun other => other ≠ id := by
      rw [ServiceState.queuedIds, ServiceState.queuedIds, List.filter_map]
      rfl
    rw [hids]
    refine h.custody.drop _ fun other htaken => ?_
    simpa using taken_cancelled htaken
  payloads queued hqueued := by
    obtain ⟨hmem, hne⟩ := List.mem_filter.mp hqueued
    obtain ⟨found, hfound, hresources⟩ := h.payloads queued hmem
    refine ⟨found, ?_, hresources⟩
    rw [ServiceState.cancelled, OrdMap.get_erase, if_neg fun heq => of_decide_eq_true hne heq.symm, hfound]
  leased := h.leased
  below := h.below

section Admission
variable {admission : Admission} {index : Nat} {queued : Queued}

theorem payload (h : Entrusted trace cluster state) (hqueued : state.queue[index]? = some queued)
    (hrequest : queued.request.id = admission.request.id) :
    state.queuedWorkloads[admission.request.id]? = some (state.payloadOf admission.request) ∧
      (state.payloadOf admission.request).resources.id = admission.request.id := by
  obtain ⟨workload, hworkload, hresources⟩ := h.payloads queued (List.mem_of_getElem? hqueued)
  rw [hrequest] at hworkload
  rw [ServiceState.payloadOf, hworkload, Option.getD_some]
  exact ⟨rfl, by rw [hresources, hrequest]⟩

theorem nextLease_free (h : Entrusted trace cluster state) :
    state.requests[(⟨state.nextLease⟩ : LeaseId)]? = none := by
  cases hentry : state.requests[(⟨state.nextLease⟩ : LeaseId)]? with
  | none => rfl
  | some entry => exact absurd (h.below _ entry hentry) (UInt64.lt_irrefl _)

theorem returned_eq (h : Entrusted trace cluster state) (hqueued : state.queue[index]? = some queued)
    (hrequest : queued.request.id = admission.request.id) :
    state.returned admission index queued = { state with nextLease := state.nextLease + 1 } := by
  rw [ServiceState.returned, insertIdx_eraseIdx_self hqueued,
    OrdMap.insert_erase_self (h.payload hqueued hrequest).1, OrdMap.erase_insert_self h.nextLease_free]

theorem admitted_inPlace (h : Entrusted trace cluster state) {cluster' : Cluster}
    (hqueued : state.queue[index]? = some queued)
    (hrequest : queued.request.id = admission.request.id)
    (hopened : ∃ found, cluster'.leases[(⟨state.nextLease⟩ : LeaseId)]? = some found)
    (hleases : ∀ (id : LeaseId) lease, cluster.leases[id]? = some lease →
      ∃ after, cluster'.leases[id]? = some after) :
    InPlace trace cluster' (state.admitted admission index) := by
  obtain ⟨hpayload, hid⟩ := h.payload hqueued hrequest
  have hids : state.queuedIds[index]? = some admission.request.id := by
    rw [ServiceState.queuedIds, List.getElem?_map, hqueued, ← hrequest]
    rfl
  have hrest : (state.admitted admission index).queuedIds = state.queuedIds.eraseIdx index :=
    (List.eraseIdx_map ..).symm
  have hfree : state.carriedBy ⟨state.nextLease⟩ = none := by
    rw [ServiceState.carriedBy, h.nextLease_free]
    rfl
  have hgiven : (state.admitted admission index).carriedBy ⟨state.nextLease⟩ =
      some admission.request.id := by
    rw [ServiceState.carriedBy, ServiceState.admitted, OrdMap.get_insert, if_pos rfl, Option.map_some, hid]
  have hothers : ∀ other, other ≠ ⟨state.nextLease⟩ →
      (state.admitted admission index).carriedBy other = state.carriedBy other := by
    intro other hother
    rw [ServiceState.carriedBy, ServiceState.admitted, OrdMap.get_insert, if_neg (Ne.symm hother)]
    rfl
  have hcustody := h.custody.grant hids hfree hgiven hothers
  rw [← hrest] at hcustody
  refine ⟨hcustody, fun other hother => ?_, fun lease entry hentry => ?_⟩
  · have hne : admission.request.id ≠ other.request.id := fun heq =>
      hcustody.apart _ _ hgiven (List.mem_map.mpr ⟨other, hother, heq.symm⟩)
    obtain ⟨found, hfound, hresources⟩ := h.payloads other (List.mem_of_mem_eraseIdx hother)
    refine ⟨found, ?_, hresources⟩
    rw [ServiceState.admitted, OrdMap.get_erase, if_neg hne, hfound]
  · rw [ServiceState.admitted, OrdMap.get_insert] at hentry
    split at hentry
    · rename_i heq
      subst heq
      exact hopened
    · obtain ⟨found, hfound⟩ := h.leased lease entry hentry
      exact hleases lease found hfound

theorem admitted (h : Entrusted trace cluster state) {cluster' : Cluster}
    (hlast : state.nextLease ≠ 18446744073709551615) (hqueued : state.queue[index]? = some queued)
    (hrequest : queued.request.id = admission.request.id)
    (hopened : ∃ found, cluster'.leases[(⟨state.nextLease⟩ : LeaseId)]? = some found)
    (hleases : ∀ (id : LeaseId) lease, cluster.leases[id]? = some lease →
      ∃ after, cluster'.leases[id]? = some after) :
    Entrusted trace cluster' (state.admitted admission index) where
  toInPlace := h.admitted_inPlace hqueued hrequest hopened hleases
  below lease entry hentry := by
    rw [ServiceState.admitted, OrdMap.get_insert] at hentry
    split at hentry
    · rename_i heq
      subst heq
      exact lt_add_one hlast
    · exact UInt64.lt_trans (h.below lease entry hentry) (lt_add_one hlast)

end Admission

theorem spend (h : Entrusted trace cluster state) (hlast : state.nextLease ≠ 18446744073709551615) :
    Entrusted trace cluster { state with nextLease := state.nextLease + 1 } where
  toInPlace := h.toInPlace.keep rfl rfl rfl (fun _ htaken => htaken) fun _ lease hlease => ⟨lease, hlease⟩
  below lease entry hentry := UInt64.lt_trans (h.below lease entry hentry) (lt_add_one hlast)

end Entrusted

theorem not_taken_nil (id : RequestId) : ¬Taken [] id := by
  rintro ⟨⟨entry, hentry, -⟩, -⟩
  cases hentry

theorem entrusted_nil (h : Entrusted trace cluster state) : Entrusted [] cluster state :=
  h.keep rfl rfl rfl rfl (fun id htaken => absurd htaken (not_taken_nil id)) fun _ lease hlease => ⟨lease, hlease⟩

theorem unused_of_fresh {id : RequestId} (hstate : Numbered state)
    (h : Fresh state id ∨ state.nextRequestId ≤ id.asU64) :
    id ∉ state.queuedIds ∧ ∀ lease, state.carriedBy lease ≠ some id := by
  have hpast : state.nextRequestId ≤ id.asU64 → ¬id.asU64 < state.nextRequestId := fun hle hlt =>
    UInt64.lt_irrefl _ (UInt64.lt_of_lt_of_le hlt hle)
  constructor
  · intro hmem
    obtain ⟨queued, hqueued, rfl⟩ := List.mem_map.mp hmem
    rcases h with hfresh | hle
    · exact hfresh.unqueued queued hqueued rfl
    · exact hpast hle (hstate.queued queued hqueued)
  · intro lease hcarried
    obtain ⟨entry, hentry, rfl⟩ := Option.map_eq_some_iff.mp hcarried
    rcases h with hfresh | hle
    · exact hfresh.uncarried lease entry hentry rfl
    · exact hpast hle (hstate.carried lease entry hentry)

abbrev InCustody (w : World) : Prop := Entrusted w.trace w.service.cluster w.service.state

theorem InCustody.unchanged (hw : InCustody w) (hw' : Grounded w) (h : Stir licence w u) {extra : List Entry}
    (htrace : u.trace = w.trace ++ extra) (hseen : ∀ id, ∀ entry ∈ extra, entry.seen ≠ .accepted id)
    (hqueue : u.service.state.queue = w.service.state.queue)
    (hrequests : u.service.state.requests = w.service.state.requests)
    (hpayloads : u.service.state.queuedWorkloads = w.service.state.queuedWorkloads)
    (hnext : u.service.state.nextLease = w.service.state.nextLease) : InCustody u := by
  refine Entrusted.keep hw hqueue hrequests hpayloads hnext (fun id htaken => ?_) fun id lease hlease => ?_
  · rw [htrace] at htaken
    exact taken_of_unaccepted (hseen id) htaken
  · exact (h.turns hw').leaseKept hw' hlease

/-- Without restores and requests under ids in use, custody is kept by every step while ids last. -/
theorem Stir.inCustody (h : Stir licence w u) (hrequests : licence.requests = false)
    (hrestores : licence.restores = false) (hlasts : ¬Exhausted w.trace) (hkept : Kept w)
    (hw : InCustody w) : InCustody u := by
  have hgrounded := hkept.now.grounded
  have hnumbered := hkept.now.numbered.resolve_left hlasts
  have hunaccepted : ∀ {extra : List Entry}, (∀ entry ∈ extra, entry.seen.isIntent = false) →
      ∀ id, ∀ entry ∈ extra, entry.seen ≠ .accepted id := by
    intro extra hextra id entry hentry hseen
    have hintent := hextra entry hentry
    rw [hseen] at hintent
    cases hintent
  cases h with
  | move hmove =>
    obtain ⟨next, hstate⟩ := Move.keeps_state hmove
    obtain ⟨extra, htrace, hextra⟩ := Move.unintended hmove
    refine hw.unchanged hgrounded (.move hmove) htrace (hunaccepted hextra) ?_ ?_ ?_ ?_
    · rw [hstate]
    · rw [hstate]
    · rw [hstate]
    · rw [hstate]
  | opening hleases hopens happly =>
    obtain ⟨extra, htrace, hextra⟩ := @trace_commit_unintended w _ _ _
    refine hw.unchanged hgrounded (.opening hleases hopens happly) htrace (hunaccepted hextra) ?_ ?_ ?_ ?_
    · rw [service_commit]
    · rw [service_commit]
    · rw [service_commit]
    · rw [service_commit]
  | enqueue workload owner hfresh =>
    rw [hrequests] at hfresh
    obtain ⟨hqueue, hcarried⟩ := unused_of_fresh hnumbered
      ((hfresh.resolve_left Bool.false_ne_true).resolve_left hlasts)
    exact hw.enqueued workload owner _ hqueue hcarried
  | enroll _ workload owner pins groups members hid =>
    have hnext : w.service.state.nextRequestId ≤ workload.resources.id.asU64 := by
      rw [hid]
      exact UInt64.le_refl _
    obtain ⟨hqueue, hcarried⟩ := unused_of_fresh hnumbered (.inr hnext)
    have hminted : Entrusted w.trace w.service.cluster { w.service.state with
        nextRequestId := w.service.state.nextRequestId + 1
        memberPins := pins, memberGroups := groups, groupMembers := members } :=
      hw.keep rfl rfl rfl rfl (fun _ h => h) fun _ lease h => ⟨lease, h⟩
    exact hminted.enqueued workload owner _ hqueue hcarried
  | draw => exact hw.unchanged hgrounded (@Stir.draw licence w) rfl (by simp) rfl rfl rfl rfl
  | grant hroom hqueued hrequest happly =>
    obtain ⟨extra, htrace, hextra⟩ := @trace_commit_unintended (w.setState _) _ _ _
    unfold InCustody
    rw [htrace, service_commit]
    have hadmitted := hw.admitted (hroom.resolve_right hlasts) hqueued hrequest (lease_of_open happly) fun id lease hlease =>
      (Turns.applied _ _ happly).leaseKept hgrounded hlease
    exact hadmitted.keep rfl rfl rfl rfl (fun id => (taken_of_unintended hextra).mp)
      fun id lease hlease => ⟨lease, hlease⟩
  | deny hroom hqueued hrequest happly =>
    obtain rfl := Cluster.Reachable.refused hgrounded happly
    unfold InCustody
    simp only [World.update]
    rw [hw.returned_eq hqueued hrequest]
    exact hw.spend (hroom.resolve_right hlasts)
  | cancel _ request => exact hw.cancelled request
  | restore hlicensed => rw [hrestores] at hlicensed; cases hlicensed
  | restart hlease hlicensed =>
    exact hw.unchanged hgrounded (.restart hlease hlicensed) rfl (by simp) rfl rfl rfl rfl
  | enlist hgroups group member replaces =>
    exact hw.unchanged hgrounded (.enlist hgroups group member replaces) rfl (by simp) rfl rfl rfl rfl
  | bind | tally | giveUp | regroup => exact hw.keep rfl rfl rfl rfl (fun _ h => h) fun _ lease h => ⟨lease, h⟩

/-! What the sink is given is in custody. -/

theorem Stir.shows (h : Stir licence w u) : ∃ extra, u.trace = w.trace ++ extra ∧
    ((∀ entry ∈ extra, entry.seen.isIntent = false) ∨
      ∀ entry ∈ extra, ∀ command, entry.seen ≠ .persisted command) := by
  cases h with
  | move hmove =>
    obtain ⟨extra, htrace, hextra⟩ := Move.unintended hmove
    exact ⟨extra, htrace, .inl hextra⟩
  | opening =>
    obtain ⟨extra, htrace, hextra⟩ := @trace_commit_unintended w _ _ _
    exact ⟨extra, htrace, .inl hextra⟩
  | grant =>
    obtain ⟨extra, htrace, hextra⟩ := @trace_commit_unintended (w.setState _) _ _ _
    exact ⟨extra, htrace, .inl hextra⟩
  | enqueue | enroll | draw | restart | cancel | enlist => exact ⟨_, rfl, .inr (by simp)⟩
  | bind | deny | tally | giveUp | regroup | restore =>
    exact ⟨[], (List.append_nil _).symm, .inl (by simp)⟩

def SavedInCustody (before : List Entry) (entry : Entry) : Prop :=
  ∀ command, entry.seen = .persisted command →
    Entrusted before entry.service.cluster entry.service.state

theorem Stir.savedInCustody (h : Stir licence w u) (hu : InCustody u)
    (hw : Throughout SavedInCustody w.trace) : Throughout SavedInCustody u.trace := by
  obtain ⟨extra, htrace, hextra⟩ := h.shows
  obtain ⟨saved, hsaved, hstate⟩ := h.saves
  obtain rfl := List.append_cancel_left (htrace.symm.trans hsaved)
  unfold InCustody at hu
  rw [htrace] at hu ⊢
  refine hw.extend fun init entry tail heq command hseen => ?_
  rcases hextra with hunintended | hunsaved
  · obtain ⟨heqstate, heqcluster⟩ := hstate entry (by rw [heq]; simp) command hseen
    rw [heqstate, heqcluster]
    refine hu.keep rfl rfl rfl rfl (fun id htaken => ?_) fun id lease hlease => ⟨lease, hlease⟩
    rw [taken_of_unintended hunintended]
    refine (taken_of_unintended fun other hother => hunintended other ?_).mp htaken
    rw [heq]
    exact List.mem_append_left _ hother
  · exact absurd hseen (hunsaved entry (by rw [heq]; simp) command)

/-- Requests are in custody, now and in what the sink was given. -/
structure Custodian (w : World) : Prop where
  now : InCustody w
  saved : Throughout SavedInCustody w.trace

theorem Stir.custodian (h : Stir licence w u) (hrequests : licence.requests = false)
    (hrestores : licence.restores = false) (hlasts : ¬Exhausted w.trace) (hkept : Kept w)
    (hw : Custodian w) : Custodian u := by
  have hu := h.inCustody hrequests hrestores hlasts hkept hw.now
  exact ⟨hu, h.savedInCustody hu hw.saved⟩

/-! One place. -/

/-- A request is queued once with its payload and carried by no lease, or carried by one lease
that the cluster has and not queued. -/
inductive ExactlyOnce (cluster : Cluster) (state : ServiceState) (id : RequestId) : Prop where
  | queued (honce : state.queuedIds.count id = 1)
      (hpayload : ∃ queued ∈ state.queue, queued.request.id = id ∧ ∃ workload,
        state.queuedWorkloads[id]? = some workload ∧ workload.resources = queued.request)
      (hnone : ∀ lease, state.carriedBy lease ≠ some id)
  | carried (hunqueued : id ∉ state.queuedIds) {lease : LeaseId}
      (hcarried : state.carriedBy lease = some id)
      (halone : ∀ other, state.carriedBy other = some id → other = lease)
      (hlease : ∃ found, cluster.leases[lease]? = some found)

theorem InPlace.exactlyOnce (h : InPlace trace cluster state) {id : RequestId} (htaken : Taken trace id) :
    ExactlyOnce cluster state id := by
  rcases h.custody.exactly_one htaken with ⟨honce, hnone⟩ | ⟨hunqueued, lease, hcarried, halone⟩
  · have hmem : id ∈ state.queuedIds := List.count_pos_iff.mp (by rw [honce]; exact Nat.one_pos)
    obtain ⟨queued, hqueued, rfl⟩ := List.mem_map.mp hmem
    exact .queued honce ⟨queued, hqueued, rfl, h.payloads queued hqueued⟩ hnone
  · obtain ⟨entry, hentry, -⟩ := Option.map_eq_some_iff.mp hcarried
    exact .carried hunqueued hcarried halone (h.leased lease entry hentry)

theorem ExactlyOnce.count_le_one {id : RequestId} (h : ExactlyOnce cluster state id) :
    state.queuedIds.count id ≤ 1 := by
  cases h with
  | queued honce => exact Nat.le_of_eq honce
  | carried hunqueued =>
    rw [List.count_eq_zero_of_not_mem hunqueued]
    exact Nat.zero_le 1

/-- A refused admission leaves the queue, the payloads and the requests as they were. -/
theorem admission_refused {policy : AdmissionPolicy} {admission : Admission} (hw : InCustody w)
    (hgranted : w.service.cluster.admitBackfillWithPolicy w.service.state.queue policy
      (executionExclusions w.service) = some admission)
    (hrefused : Cluster.apply (w.openCommand admission) w.service.cluster = .error e left) :
    ∃ fault u, admitOneWithPolicy policy w = .error fault u ∧
      u.service.state.queue = w.service.state.queue ∧
      u.service.state.queuedWorkloads = w.service.state.queuedWorkloads ∧
      u.service.state.requests = w.service.state.requests := by
  unfold admitOneWithPolicy
  rw [self_bind_run, hgranted]
  dsimp only
  cases hvalid : validateAllocationBindings w.service.cluster.graph admission.allocation with
  | error e => exact ⟨.err e, w, rfl, rfl, rfl, rfl⟩
  | ok =>
    obtain ⟨queued, hmem, hrequest, -⟩ := Admit.admitBackfillWithPolicy_mem hgranted
    obtain ⟨index, found, hindex, hfind, hqueued, hid⟩ := queue_position
      ⟨queued, hmem, congrArg Request.id hrequest⟩
    have hrun := grantLease_run hindex hfind
    rw [hrefused] at hrun
    rw [hw.returned_eq hqueued hid] at hrun
    exact ⟨_, _, @bind_of_error _ _ _ _ (grantLease admission) w _ _ hrun _, rfl, rfl, rfl⟩

namespace Process

/-- Everything but restores and requests under ids in use. -/
def custodial : Licence := ⟨true, true, false, true, false, true⟩

theorem inCustody_new (durableSink : Bool) : InCustody (new durableSink).world where
  custody := Custody.empty.mono fun id htaken => by
    obtain ⟨⟨entry, hentry, -⟩, -⟩ := htaken
    cases hentry
  payloads queued hqueued := by cases hqueued
  leased lease entry hentry := by cases hentry
  below lease entry hentry := by cases hentry

/-- In every run from a new controller whose submissions bring ids that the counter has not passed,
and in which neither a request nor an admission takes the last id there is, whatever the sink is
given has each request in exactly one place, and a refused admission moves none. -/
theorem requests_in_custody (durableSink : Bool) {operations : List Operation}
    (h : Permits custodial (new durableSink) operations)
    (hlasts : ¬Exhausted ((new durableSink).run operations).world.trace) :
    let w := ((new durableSink).run operations).world
    Throughout (fun before entry => ∀ command, entry.seen = .persisted command → ∀ id, Taken before id →
        ExactlyOnce entry.service.cluster entry.service.state id) w.trace ∧
      (∀ id, Taken w.trace id → ExactlyOnce w.service.cluster w.service.state id) ∧
      ∀ policy admission e left,
        w.service.cluster.admitBackfillWithPolicy w.service.state.queue policy
          (executionExclusions w.service) = some admission →
        Cluster.apply (w.openCommand admission) w.service.cluster = .error e left →
        ∃ fault u, admitOneWithPolicy policy w = .error fault u ∧
          u.service.state.queue = w.service.state.queue ∧
          u.service.state.queuedWorkloads = w.service.state.queuedWorkloads ∧
          u.service.state.requests = w.service.state.requests := by
  intro w
  have hrun := @run_stirs custodial (fun w => Exhausted w.trace ∨ Custodian w) _ (kept_new durableSink)
    (.inr ⟨inCustody_new durableSink, .nil⟩) (fun t u hkept hstir ht => ?_) operations h
  · obtain ⟨hcustody, hsaved⟩ := hrun.2.resolve_left hlasts
    refine ⟨hsaved.mono fun before entry hgood command hseen id htaken => ?_, fun id htaken => ?_, ?_⟩
    · exact (hgood command hseen).exactlyOnce htaken
    · exact hcustody.exactlyOnce htaken
    · exact fun policy admission e left hgranted hrefused => admission_refused hcustody hgranted hrefused
  · exact hstir.lasting ht fun hids hcustodian => hstir.custodian rfl rfl hids hkept hcustodian

namespace Sample

def oneCpu (id : RequestId) : WorkloadSpec :=
  .resourceOnly ⟨id, .service, [⟨.cpu, qty .count 1, []⟩], [], [], [], 100, 0, false⟩

/-- The id of the first lease is taken from outside, so the first admission is refused. -/
def offered : List Operation :=
  [.register ⟨"w", "w", 2, 1, [], []⟩ ⟨.default, .default⟩,
   .apply (.openLease 1 1 ⟨[⟨2, qty .count 1⟩], 1, ⟨"", []⟩⟩ none 100 100 0),
   .submit (oneCpu 1) 1,
   .admitOne .default,
   .registerServiceGroup ⟨"g", 1, .fixed 1, oneCpu 0⟩,
   .reconcileServiceGroups]

end Sample

theorem offered_permitted : Permits custodial (new true) Sample.offered :=
  ⟨trivial, ⟨fun _ => rfl, fun _ => rfl⟩, .inr (by decide +kernel), trivial, rfl, rfl, trivial⟩

theorem offered_in_custody :
    (∀ id, Taken ((new true).run Sample.offered).world.trace id →
      ExactlyOnce ((new true).run Sample.offered).world.service.cluster
        ((new true).run Sample.offered).world.service.state id) ∧
      Taken ((new true).run Sample.offered).world.trace 1 ∧
      Taken ((new true).run Sample.offered).world.trace 2 ∧
      ((new true).run Sample.offered).world.service.state.queuedIds = [1, 2] := by
  refine ⟨(@requests_in_custody true Sample.offered offered_permitted (by decide +kernel)).2.1, ?_, ?_, ?_⟩
  · decide +kernel
  · decide +kernel
  · decide +kernel

/-! Where the counter starts again. -/
namespace Sample

/-- A group grows over the last id there is while request 1 still waits. -/
def wrapped : List Operation :=
  [.submit (oneCpu 1) 1,
   .submit (oneCpu 18446744073709551614) 1,
   .registerServiceGroup ⟨"g", 1, .fixed 3, oneCpu 0⟩,
   .reconcileServiceGroups]

end Sample

theorem wrapped_permitted : Permits custodial (new true) Sample.wrapped :=
  ⟨.inr (by decide +kernel), .inr (by decide +kernel), rfl, rfl, trivial⟩

/-- The sink is given a queue that has request 1 in it twice. -/
theorem wrapped_id_queued_twice :
    Permits custodial (new true) Sample.wrapped ∧
    ((new true).run Sample.wrapped).world.service.state.queuedIds =
      [1, 18446744073709551614, 18446744073709551615, 0, 1] ∧
    ¬Throughout (fun before entry => ∀ command, entry.seen = .persisted command → ∀ id, Taken before id →
      ExactlyOnce entry.service.cluster entry.service.state id) ((new true).run Sample.wrapped).world.trace := by
  refine ⟨wrapped_permitted, by decide +kernel, fun h => ?_⟩
  have hfound : ∃ k : Fin ((new true).run Sample.wrapped).world.trace.length,
      (((new true).run Sample.wrapped).world.trace.get k).seen.isDeposit ∧
      Taken (((new true).run Sample.wrapped).world.trace.take k) 1 ∧
      (((new true).run Sample.wrapped).world.trace.get k).service.state.queuedIds.count 1 = 2 := by
    decide +kernel
  obtain ⟨⟨k, hk⟩, hpersisted, htaken, htwice⟩ := hfound
  have hentry := h.get hk
  cases hseen : (((new true).run Sample.wrapped).world.trace.get ⟨k, hk⟩).seen with
  | persisted command =>
    have hle := (hentry command hseen 1 htaken).count_le_one
    omega
  | _ =>
    rw [hseen] at hpersisted
    cases hpersisted

end Process
end Archon.Node
