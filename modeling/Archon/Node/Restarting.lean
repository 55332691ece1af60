import Archon.Node.Saving

/-! Restarts of dead leases. The books of the controller agree with what has been
restarted, in the state it has and in the state the sink was given last, so the cap and
the backoff hold over all generations of an original request. -/
namespace Archon.Node
open Archon.Kernel Fallible Service

/-- A dead lease with its payload, the original request, the request that stands in, and
the time. -/
structure Restart where
  lease : LeaseId
  workload : Option WorkloadSpec
  root : RequestId
  fresh : RequestId
  now : UInt64
  deriving DecidableEq

def Entry.restart (entry : Entry) : Option Restart :=
  match entry.seen with
  | .restarted lease root fresh => some ⟨lease, entry.service.state.requests[lease]?.map Prod.fst,
      root, fresh, entry.service.cluster.now⟩
  | _ => none

/-- Everything that was restarted, in order. -/
def restarts (trace : List Entry) : List Restart := trace.filterMap Entry.restart

namespace Restart

/-- The restarts of one original request. -/
def ofRoot (root : RequestId) (log : List Restart) : List Restart :=
  log.filter fun restart => restart.root = root

/-- The original request that restarts have noted for an id. -/
def noted (first : ServiceState) (log : List Restart) (id : RequestId) : Option RequestId :=
  ((log.findRev? fun restart => restart.fresh = id).map Restart.root).or first.restartRoot[id]?

/-- What a restart meets after the ones before it: its lease is restarted once, its root is
the request its payload descends from, and the root has restarts left and has waited, or the
clock stands at its end. -/
structure Lawful (first : ServiceState) (before : List Restart) (restart : Restart) : Prop where
  once : ∀ earlier ∈ before, earlier.lease ≠ restart.lease
  descends : ∃ workload, restart.workload = some workload ∧ workload.keepAlive ∧
    restart.root = (noted first before workload.resources.id).getD workload.resources.id
  capped : (first.restartsOf restart.root).toNat + (ofRoot restart.root before).length < 5
  spaced : ∀ earlier, (ofRoot restart.root before).getLast? = some earlier →
    earlier.now.toNat + min (2 ^ (ofRoot restart.root before).length) 60 ≤ restart.now.toNat ∨
      restart.now.toNat = 2 ^ 64 - 1

/-- The books of a state agree with what has been restarted. -/
structure Booked (first : ServiceState) (log : List Restart) (state : ServiceState) : Prop where
  handled : ∀ restart ∈ log, restart.lease ∈ state.restartHandled
  roots : ∀ id, state.restartRoot[id]? = noted first log id
  counts : ∀ root, (first.restartsOf root).toNat + (ofRoot root log).length ≤ (state.restartsOf root).toNat
  last : ∀ root restart, (ofRoot root log).getLast? = some restart →
    ∃ since, state.restartLastAt[root]? = some since ∧ restart.now ≤ since

/-- The books only move on. -/
structure BooksKept (s t : ServiceState) : Prop where
  handled : ∀ lease, lease ∈ s.restartHandled → lease ∈ t.restartHandled
  roots : t.restartRoot = s.restartRoot
  counts : ∀ root, (s.restartsOf root).toNat ≤ (t.restartsOf root).toNat
  last : ∀ (root : RequestId) since, s.restartLastAt[root]? = some since →
    ∃ next, t.restartLastAt[root]? = some next ∧ since ≤ next

variable {first s t : ServiceState} {log : List Restart}

theorem Booked.mono (h : Booked first log s) (hkept : BooksKept s t) : Booked first log t where
  handled restart hrestart := hkept.handled restart.lease (h.handled restart hrestart)
  roots id := by rw [hkept.roots, h.roots]
  counts root := (h.counts root).trans (hkept.counts root)
  last root restart hlast := by
    obtain ⟨since, hsince, hle⟩ := h.last root restart hlast
    obtain ⟨next, hnext, hlater⟩ := hkept.last root since hsince
    exact ⟨next, hnext, UInt64.le_trans hle hlater⟩

theorem BooksKept.same (hhandled : t.restartHandled = s.restartHandled)
    (hroots : t.restartRoot = s.restartRoot) (hcounts : t.restartCounts = s.restartCounts)
    (hlast : t.restartLastAt = s.restartLastAt) : BooksKept s t where
  handled lease h := by rw [hhandled]; exact h
  roots := hroots
  counts root := by rw [ServiceState.restartsOf, ServiceState.restartsOf, hcounts]
  last root since h := ⟨since, by rw [hlast, h], UInt64.le_refl since⟩

theorem booksKept_tallied (s : ServiceState) (root : RequestId) : BooksKept s (s.tallied root) where
  handled _ h := h
  roots := rfl
  counts other := by
    rw [ServiceState.restartsOf, ServiceState.restartsOf, ServiceState.tallied]
    dsimp only
    rw [OrdMap.get_insert]
    split
    · rename_i heq
      rw [heq]
      rfl
    · rfl
  last root since h := ⟨since, h, UInt64.le_refl since⟩

theorem booksKept_givenUp (s : ServiceState) (id : LeaseId) :
    BooksKept s { s with restartHandled := s.restartHandled.insert id () } where
  handled lease h := by simp [h]
  roots := rfl
  counts root := Nat.le_refl _
  last root since h := ⟨since, h, UInt64.le_refl since⟩

/-! A lease is counted where its root may be restarted and has waited. -/

theorem toNat_backoff (count : UInt32) : (backoff count).toNat = min (2 ^ min count.toNat 6) 60 := by
  rw [backoff, UInt64.toNat_ofNat']
  exact Nat.mod_eq_of_lt (by omega)

/-- More restarts never wait for less. -/
theorem le_backoff {k : Nat} {count : UInt32} (h : k ≤ count.toNat) :
    min (2 ^ k) 60 ≤ (backoff count).toNat := by
  rw [toNat_backoff]
  rcases Nat.le_total count.toNat 6 with hsmall | hlarge
  · rw [Nat.min_eq_left hsmall]
    exact min_le_min_right 60 (Nat.pow_le_pow_right Nat.two_pos h)
  · rw [Nat.min_eq_right hlarge]
    exact min_le_right _ _

theorem saturatingAdd_le {a b c : UInt64} (h : saturatingAdd a b ≤ c) :
    a.toNat + b.toNat ≤ c.toNat ∨ c.toNat = 2 ^ 64 - 1 := by
  have hc := c.toNat_lt
  rw [saturatingAdd, UInt64.le_iff_toNat_le] at h
  split at h
  · rename_i hfits
    rw [UInt64.toNat_add, Nat.mod_eq_of_lt hfits] at h
    exact .inl h
  · exact .inr (Nat.le_antisymm (Nat.le_sub_one_of_lt hc) h)

theorem ofRoot_concat (root : RequestId) (log : List Restart) (restart : Restart) :
    ofRoot root (log ++ [restart]) =
      ofRoot root log ++ if restart.root = root then [restart] else [] := by
  simp [ofRoot, List.filter_singleton]

theorem noted_concat (first : ServiceState) (log : List Restart) (restart : Restart) (id : RequestId) :
    noted first (log ++ [restart]) id =
      if restart.fresh = id then some restart.root else noted first log id := by
  unfold noted
  rw [List.findRev?_eq_find?_reverse, List.findRev?_eq_find?_reverse, List.reverse_concat, List.find?_cons]
  by_cases h : restart.fresh = id
  · simp [h]
  · simp [h]

section Lease
variable {service : NodeService} {id : LeaseId} {workload : WorkloadSpec} {owner : OwnerId}

/-- The restart of a lease, as it is recorded. -/
def of (service : NodeService) (id : LeaseId) (workload : WorkloadSpec) : Restart :=
  ⟨id, some workload, service.state.rootOf workload, ⟨service.state.nextRequestId⟩, service.cluster.now⟩

theorem root_of (service : NodeService) (id : LeaseId) (workload : WorkloadSpec) :
    (of service id workload).root = service.state.rootOf workload := rfl

theorem Booked.lawful (h : Booked first log service.state) (hlease : Restartable service id workload owner) :
    Lawful first log (of service id workload) where
  once earlier hearlier heq := by
    have hhandled := h.handled earlier hearlier
    rw [heq] at hhandled
    exact hlease.unhandled hhandled
  descends := ⟨workload, rfl, hlease.keepAlive, by rw [← h.roots]; rfl⟩
  capped := (h.counts _).trans_lt (UInt32.lt_iff_toNat_lt.mp hlease.cap)
  spaced earlier hearlier := by
    obtain ⟨since, hsince, hle⟩ := h.last _ earlier hearlier
    have hdue := hlease.due
    have hcount := (Nat.le_add_left _ _).trans (h.counts (of service id workload).root)
    rw [show service.state.restartLastAt[service.state.rootOf workload]? = some since from hsince,
      Option.getD_some] at hdue
    refine (saturatingAdd_le hdue).imp_left fun hwaited => ?_
    exact (Nat.add_le_add (UInt64.le_iff_toNat_le.mp hle) (le_backoff hcount)).trans hwaited

theorem restartsOf_counted (state : ServiceState) (id : LeaseId) (root other : RequestId) (now : UInt64) :
    (state.counted id root now).restartsOf other =
      if root = other then state.restartsOf root + 1 else state.restartsOf other := by
  rw [ServiceState.restartsOf, ServiceState.counted]
  dsimp only
  rw [OrdMap.get_insert]
  split
  · rfl
  · rfl

/-- A restart below the cap does not wrap its counter around. -/
theorem toNat_counted (hlease : Restartable service id workload owner) :
    (service.state.restartsOf (service.state.rootOf workload) + 1).toNat =
      (service.state.restartsOf (service.state.rootOf workload)).toNat + 1 := by
  have hcap := UInt32.lt_iff_toNat_lt.mp hlease.cap
  rw [UInt32.toNat_add, UInt32.toNat_one]
  exact Nat.mod_eq_of_lt (Nat.lt_of_le_of_lt hcap (by decide))

theorem Booked.restarted (h : Booked first log service.state)
    (hlease : Restartable service id workload owner) :
    Booked first (log ++ [of service id workload]) (service.state.restarted id
      (service.state.rootOf workload) service.cluster.now) where
  handled restart hrestart := by
    rcases List.mem_append.mp hrestart with hbefore | hnew
    · simp [ServiceState.restarted, ServiceState.counted, h.handled restart hbefore]
    · rw [List.mem_singleton.mp hnew]
      simp [ServiceState.restarted, ServiceState.counted, of]
  roots other := by
    rw [noted_concat, ← h.roots]
    exact OrdMap.get_insert _ _ _ _
  counts root := by
    have hcounts := h.counts root
    have hcounted := restartsOf_counted service.state id (service.state.rootOf workload) root
      service.cluster.now
    rw [ofRoot_concat, root_of, List.length_append]
    refine le_of_le_of_eq ?_ (congrArg UInt32.toNat hcounted.symm)
    by_cases hroot : service.state.rootOf workload = root
    · rw [if_pos hroot, if_pos hroot, toNat_counted hlease, hroot]
      exact Nat.succ_le_succ hcounts
    · rw [if_neg hroot, if_neg hroot]
      exact hcounts
  last root restart hlast := by
    rw [ofRoot_concat, root_of] at hlast
    rw [ServiceState.restarted, ServiceState.counted]
    dsimp only
    rw [OrdMap.get_insert]
    by_cases hroot : service.state.rootOf workload = root
    · rw [if_pos hroot, List.getLast?_concat] at hlast
      cases hlast
      exact ⟨_, if_pos hroot, UInt64.le_refl _⟩
    · rw [if_neg hroot, List.append_nil] at hlast
      rw [if_neg hroot]
      exact h.last root restart hlast

end Lease
end Restart

/-! What a step does to the log of restarts and to the books. -/

variable {own : Bool} {licence : Licence} {w u : World} {first : ServiceState}

theorem restarts_append (before after : List Entry) :
    restarts (before ++ after) = restarts before ++ restarts after := List.filterMap_append

theorem Entry.restart_none {entry : Entry} (h : ∀ lease root fresh, entry.seen ≠ .restarted lease root fresh) :
    entry.restart = none := by
  unfold Entry.restart
  cases hseen : entry.seen with
  | restarted lease root fresh => exact absurd hseen (h lease root fresh)
  | _ => rfl

theorem restarts_seen {entry : Entry} (h : ∀ lease root fresh, entry.seen ≠ .restarted lease root fresh)
    (htrace : u.trace = w.trace ++ [entry]) : restarts u.trace = restarts w.trace := by
  rw [htrace, restarts_append, restarts, restarts, List.filterMap_cons_none (Entry.restart_none h)]
  exact List.append_nil _

theorem restarts_of_unintended {trace extra : List Entry}
    (h : ∀ entry ∈ extra, entry.seen.isIntent = false) : restarts (trace ++ extra) = restarts trace := by
  have hnone : restarts extra = [] := by
    refine List.filterMap_eq_nil_iff.mpr fun entry hentry => Entry.restart_none fun _ _ _ heq => ?_
    have hseen := h entry hentry
    rw [heq] at hseen
    cases hseen
  rw [restarts_append, hnone, List.append_nil]

theorem restarts_restart {id : LeaseId} (h : Restartable w.service id workload owner) :
    restarts (w.restart id (w.service.state.rootOf workload)).trace =
      restarts w.trace ++ [Restart.of w.service id workload] := by
  have hcarried : w.service.state.requests[id]?.map Prod.fst = some workload := by
    rw [h.payload]
    rfl
  refine (restarts_append _ _).trans (congrArg _ ?_)
  exact congrArg (fun carried => [Restart.mk id carried _ _ _]) hcarried

theorem restarts_commit (command : Command) (effects : List Effect) (cluster : Cluster) :
    restarts (w.commit command effects cluster).trace = restarts w.trace := by
  obtain ⟨extra, htrace, hextra⟩ := @trace_commit_unintended w command effects cluster
  rw [htrace]
  exact restarts_of_unintended hextra

theorem Move.restarts (h : Move own w u) : restarts u.trace = restarts w.trace := by
  obtain ⟨extra, htrace, hextra⟩ := Move.unintended h
  rw [htrace]
  exact restarts_of_unintended hextra

/-- The books move on, or a lease is restarted. -/
inductive Books (w u : World) : Prop where
  | kept (hlog : restarts u.trace = restarts w.trace)
      (hbooks : Restart.BooksKept w.service.state u.service.state)
  | restarted {id : LeaseId} (h : Restartable w.service id workload owner)
      (hlog : restarts u.trace = restarts w.trace ++ [Restart.of w.service id workload])
      (hstate : u.service.state = w.service.state.restarted id (w.service.state.rootOf workload)
        w.service.cluster.now)

theorem Stir.books (h : Stir licence w u) (hrestores : licence.restores = false) : Books w u := by
  cases h with
  | move hmove =>
    obtain ⟨next, hstate⟩ := Move.keeps_state hmove
    exact .kept (Move.restarts hmove) (by rw [hstate]; exact .same rfl rfl rfl rfl)
  | opening => exact .kept (restarts_commit _ _ _) (by rw [service_commit]; exact .same rfl rfl rfl rfl)
  | grant =>
    refine .kept (restarts_commit (w := w.setState _) _ _ _) ?_
    rw [service_commit]
    exact .same rfl rfl rfl rfl
  | restart hlease => exact .restarted hlease (restarts_restart hlease) rfl
  | tally _ root => exact .kept rfl (Restart.booksKept_tallied _ root)
  | giveUp _ id => exact .kept rfl (Restart.booksKept_givenUp _ id)
  | restore hlicensed => rw [hrestores] at hlicensed; cases hlicensed
  | enqueue | enroll | draw | cancel | enlist =>
    exact .kept (restarts_seen (fun _ _ _ heq => by cases heq) rfl) (.same rfl rfl rfl rfl)
  | bind | deny | regroup => exact .kept rfl (.same rfl rfl rfl rfl)

/-- The books agree with the log, and what was restarted was lawful. -/
structure Accounted (first : ServiceState) (w : World) : Prop where
  booked : Restart.Booked first (restarts w.trace) w.service.state
  lawful : Throughout (Restart.Lawful first) (restarts w.trace)

theorem Books.accounted (h : Books w u) (hw : Accounted first w) : Accounted first u := by
  cases h with
  | kept hlog hbooks =>
    refine ⟨?_, by rw [hlog]; exact hw.lawful⟩
    rw [hlog]
    exact hw.booked.mono hbooks
  | restarted hlease hlog hstate =>
    refine ⟨?_, by rw [hlog]; exact hw.lawful.concat (hw.booked.lawful hlease)⟩
    rw [hlog, hstate]
    exact hw.booked.restarted hlease

/-- Going back to a state alike changes no books. -/
theorem Accounted.back {saved : ServiceState} (hw : Accounted first w)
    (h : Alike saved w.service.state) : Accounted first (after (restoreState saved) w) := by
  obtain ⟨_, _, _, _, _, _, heq⟩ := h
  refine ⟨hw.booked.mono ?_, hw.lawful⟩
  rw [heq]
  exact .same rfl rfl rfl rfl

namespace Process

theorem accounted_boot (cluster : Cluster) (state : ServiceState) (durableSink : Bool) :
    Accounted state (boot cluster state durableSink).world := by
  refine ⟨⟨by simp [boot, restarts], fun id => rfl, fun root => Nat.le_refl _, ?_⟩, .nil⟩
  intro root restart hlast
  cases hlast

/-- In every run each lease is restarted once at most and each original request five times,
and its next restart waits out the backoff of its number, unless the clock stands at its end. -/
theorem restarts_capped_and_spaced {cluster : Cluster} {state : ServiceState}
    (hcluster : cluster.Reachable) (hstate : Numbered state) (durableSink : Bool)
    (operations : List Operation) :
    let log := restarts ((boot cluster state durableSink).run operations).world.trace
    Throughout (Restart.Lawful state) log ∧ (log.map Restart.lease).Nodup ∧
      ∀ root, (Restart.ofRoot root log).length ≤ 5 ∧
        ∀ k earlier later, (Restart.ofRoot root log)[k]? = some earlier →
          (Restart.ofRoot root log)[k + 1]? = some later →
            earlier.now.toNat + min (2 ^ (k + 1)) 60 ≤ later.now.toNat ∨
              later.now.toNat = 2 ^ 64 - 1 := by
  intro log
  have hlawful : Throughout (Restart.Lawful state) log := by
    exact (run_saved (settles_boot hcluster hstate durableSink) (accounted_boot cluster state durableSink)
      (fun w u _ hstir hw => (hstir.books rfl).accounted hw) (fun w saved halike hw => hw.back halike)
      operations).2.lawful
  refine ⟨hlawful, (hlawful.mono fun _ _ h => h.once).nodup_map, fun root => ⟨?_, ?_⟩⟩
  · refine Throughout.length_le (hlawful.filter fun before restart hroot h => ?_)
    rw [← of_decide_eq_true hroot]
    exact Nat.lt_of_le_of_lt (Nat.le_add_left _ _) h.capped
  · intro k earlier later hearlier hlater
    refine Throughout.consecutive (R := fun k earlier later =>
      earlier.now.toNat + min (2 ^ k) 60 ≤ later.now.toNat ∨ later.now.toNat = 2 ^ 64 - 1)
      (hlawful.filter fun before restart hroot h last hlast => ?_) hearlier hlater
    have hspaced := h.spaced last
    rw [of_decide_eq_true hroot] at hspaced
    exact hspaced hlast

namespace Sample

def worker : MachineDescription := ⟨"w", "w", 2, 1, [], []⟩

def daemon : WorkloadSpec := { WorkloadSpec.resourceOnly
  ⟨1, .service, [⟨.cpu, qty .count 1, []⟩], [], [], [], 100, 0, false⟩ with keepAlive := true }

/-- A lease runs out and is replaced; what replaces it outlives a restart and runs out. -/
def replaced (now later : UInt64) : List Operation :=
  [.register worker ⟨.default, .default⟩,
   .submit daemon 1,
   .admitOne .default,
   .tick now,
   .queueRestarts,
   .restoreLast,
   .admitOne .default,
   .tick later,
   .queueRestarts]

end Sample

theorem replaced_twice :
    let log := restarts ((boot .new .new true).run (Sample.replaced 100 200)).world.trace
    (Throughout (Restart.Lawful .new) log ∧ (log.map Restart.lease).Nodup ∧
      ∀ root, (Restart.ofRoot root log).length ≤ 5 ∧
        ∀ k earlier later, (Restart.ofRoot root log)[k]? = some earlier →
          (Restart.ofRoot root log)[k + 1]? = some later →
            earlier.now.toNat + min (2 ^ (k + 1)) 60 ≤ later.now.toNat ∨
              later.now.toNat = 2 ^ 64 - 1) ∧
      log.map (fun restart => (restart.lease, restart.root, restart.fresh)) = [(1, 1, 2), (2, 1, 3)] := by
  intro log
  constructor
  · exact @restarts_capped_and_spaced .new .new ⟨[], rfl⟩ numbered_new true
      (Sample.replaced 100 200)
  · decide +kernel

/-- Near the end of the clock the second restart comes a second after the first. -/
theorem restarted_at_the_end :
    (restarts ((boot .new .new true).run
      (Sample.replaced 18446744073709551614 18446744073709551615)).world.trace).map
        (fun restart => (restart.root, restart.now)) =
      [(1, 18446744073709551614), (1, 18446744073709551615)] := by
  decide +kernel

end Process
end Archon.Node
