import Archon.Kernel.Setups
import Archon.Node.Chronicle

/-! Setups that outlive their lease. A prepare or an activate is queued while the lease of its
binding is not over. Where the lease is over and the setup has still to be sent, a command ended
the lease while the setup was queued, or repeated the opening of the binding after the end. -/
namespace Archon.Node
open Archon.Kernel Fallible Service

/-- The lease of a binding is over. -/
def bindingEnded (cluster : Cluster) (binding : BindingId) : Bool :=
  cluster.bindings[binding]?.any fun record =>
    cluster.leases[record.lease]?.any fun lease => isTerminal lease.state

/-- The bindings whose queued setup a command cuts off from their lease by ending it. -/
def endedBy (s : NodeService) (command : Command) : List BindingId :=
  (s.pending.filterMap Effect.setsUp).filter fun binding =>
    !bindingEnded s.cluster binding && bindingEnded (after (Cluster.apply command) s.cluster) binding

/-- The binding whose opening a command repeats though its lease is over. -/
def reopenedBy (s : NodeService) : Command → List BindingId
  | .openBinding binding _ _ _ _ =>
    if s.cluster.bindings[binding]?.any (fun record => record.state = .preparing) &&
        bindingEnded s.cluster binding then [binding] else []
  | _ => []

def Entry.cutOff (entry : Entry) : List BindingId :=
  match entry.seen with
  | .committed command => endedBy entry.service command ++ reopenedBy entry.service command
  | _ => []

/-- The bindings left to be set up for a lease that is over. -/
def cutOff (trace : List Entry) : List BindingId := trace.flatMap Entry.cutOff

theorem cutOff_mono {before trace : List Entry} {id : BindingId} (h : before <+: trace)
    (hid : id ∈ cutOff before) : id ∈ cutOff trace := by
  obtain ⟨entry, hentry, hcut⟩ := List.mem_flatMap.mp hid
  exact List.mem_flatMap.mpr ⟨entry, h.subset hentry, hcut⟩

theorem bindingEnded_of {cluster : Cluster} {id : BindingId} {record : Binding} {lease : Lease}
    (hrecord : cluster.bindings[id]? = some record) (hlease : cluster.leases[record.lease]? = some lease) :
    bindingEnded cluster id = isTerminal lease.state := by
  simp [bindingEnded, hrecord, hlease]

/-- Whatever setup of an ended lease is queued or was taken from the queue was cut off. -/
structure Foreseen (w : World) : Prop where
  queued : ∀ effect ∈ w.service.pending, ∀ id, effect.setsUp = some id →
    (∃ record, w.service.cluster.bindings[id]? = some record) ∧
      (bindingEnded w.service.cluster id → id ∈ cutOff w.trace)
  routed : ∀ entry ∈ w.trace, ∀ effect id, entry.seen = .routed effect → effect.setsUp = some id →
    bindingEnded entry.service.cluster id → id ∈ cutOff w.trace

variable {own : Bool} {licence : Licence} {w u : World}

theorem Foreseen.still (hw : Foreseen w) {extra : List Entry} (htrace : u.trace = w.trace ++ extra)
    (hextra : ∀ entry ∈ extra, ∀ effect, entry.seen ≠ .routed effect)
    (hpending : u.service.pending = w.service.pending)
    (hbindings : u.service.cluster.bindings = w.service.cluster.bindings)
    (hleases : u.service.cluster.leases = w.service.cluster.leases) : Foreseen u := by
  have hgrows : w.trace <+: u.trace := by
    rw [htrace]
    exact List.prefix_append _ _
  have hended : ∀ id, bindingEnded u.service.cluster id = bindingEnded w.service.cluster id := fun id => by
    rw [bindingEnded, hbindings, hleases]
    rfl
  refine ⟨fun effect heffect id hid => ?_, fun entry hentry effect id hseen hid hover => ?_⟩
  · rw [hpending] at heffect
    obtain ⟨hknown, hcut⟩ := hw.queued effect heffect id hid
    rw [hbindings, hended]
    exact ⟨hknown, fun hover => cutOff_mono hgrows (hcut hover)⟩
  · rw [htrace] at hentry
    rcases List.mem_append.mp hentry with hbefore | hnew
    · exact cutOff_mono hgrows (hw.routed entry hbefore effect id hseen hid hover)
    · exact absurd hseen (hextra entry hnew effect)

theorem Foreseen.same (hw : Foreseen w) (htrace : u.trace = w.trace)
    (hpending : u.service.pending = w.service.pending)
    (hbindings : u.service.cluster.bindings = w.service.cluster.bindings)
    (hleases : u.service.cluster.leases = w.service.cluster.leases) : Foreseen u :=
  hw.still (by rw [htrace, List.append_nil]) (fun _ hentry => by cases hentry) hpending hbindings hleases

theorem Foreseen.one (hw : Foreseen w) {entry : Entry} (htrace : u.trace = w.trace ++ [entry])
    (hseen : ∀ effect, entry.seen ≠ .routed effect) (hpending : u.service.pending = w.service.pending)
    (hbindings : u.service.cluster.bindings = w.service.cluster.bindings)
    (hleases : u.service.cluster.leases = w.service.cluster.leases) : Foreseen u := by
  refine hw.still htrace (fun other hother => ?_) hpending hbindings hleases
  rw [List.mem_singleton.mp hother]
  exact hseen

theorem cutOff_of_queued {command : Command} {effects : List Effect} {cluster : Cluster} {effect : Effect}
    {id : BindingId} (hw : Foreseen w)
    (happly : Cluster.apply command w.service.cluster = .ok effects cluster)
    (heffect : effect ∈ w.service.pending) (hid : effect.setsUp = some id)
    (hover : bindingEnded cluster id) : id ∈ cutOff (w.trace ++ [⟨w.service, .committed command⟩]) := by
  cases hbefore : bindingEnded w.service.cluster id with
  | true =>
    exact cutOff_mono (List.prefix_append _ _) ((hw.queued effect heffect id hid).2 hbefore)
  | false =>
    refine List.mem_flatMap.mpr ⟨_, List.mem_append_right _ List.mem_cons_self, ?_⟩
    refine List.mem_append_left _ (List.mem_filter.mpr ⟨List.mem_filterMap.mpr ⟨effect, heffect, hid⟩, ?_⟩)
    rw [hbefore, after_of_ok happly, hover]
    rfl

theorem cutOff_of_new {command : Command} {effects : List Effect} {cluster : Cluster} {effect : Effect}
    {id : BindingId} (hw : Grounded w) (happly : Cluster.apply command w.service.cluster = .ok effects cluster)
    (heffect : effect ∈ effects) (hid : effect.setsUp = some id) :
    (∃ record, cluster.bindings[id]? = some record) ∧
      (bindingEnded cluster id → id ∈ cutOff (w.trace ++ [⟨w.service, .committed command⟩])) := by
  have hkeys : Cluster.BindingsKeyed w.service.cluster := fun _ _ h => hw.wellFormed.bindings.key h
  cases Cluster.setsUp_of_apply hkeys happly heffect hid with
  | live hbinding hlease hstate =>
    refine ⟨⟨_, hbinding⟩, fun hover => ?_⟩
    rw [bindingEnded_of hbinding hlease] at hover
    rcases hstate with hstate | hstate
    · rw [hstate] at hover
      cases hover
    · rw [hstate] at hover
      cases hover
  | repeated hbinding hstate hbindings hleases =>
    refine ⟨⟨_, by rw [hbindings]; exact hbinding⟩, fun hover => ?_⟩
    have hbefore : bindingEnded w.service.cluster id := by
      rw [bindingEnded, ← hbindings, ← hleases]
      exact hover
    refine List.mem_flatMap.mpr ⟨_, List.mem_append_right _ List.mem_cons_self, List.mem_append_right _ ?_⟩
    simp [reopenedBy, hbinding, hstate, hbefore]

theorem Foreseen.commit (hw : Foreseen w) (hground : Grounded w) {command : Command} {effects : List Effect}
    {cluster : Cluster} (happly : Cluster.apply command w.service.cluster = .ok effects cluster) :
    Foreseen (w.commit command effects cluster) := by
  have hgrows : w.trace ++ [⟨w.service, .committed command⟩] <+: (w.commit command effects cluster).trace := by
    rw [trace_commit_eq]
    exact ⟨_, List.append_assoc _ _ _⟩
  refine ⟨fun effect heffect id hid => ?_, fun entry hentry effect id hseen hid hover => ?_⟩
  · rw [service_commit] at heffect ⊢
    rcases List.mem_append.mp heffect with hold | hnew
    · obtain ⟨⟨record, hrecord⟩, -⟩ := hw.queued effect hold id hid
      obtain ⟨next, hnext, -⟩ := (Cluster.bindings_of_apply happly).kept id record hrecord
      exact ⟨⟨next, hnext⟩, fun hover => cutOff_mono hgrows (cutOff_of_queued hw happly hold hid hover)⟩
    · obtain ⟨hknown, hcut⟩ := cutOff_of_new hground happly hnew hid
      exact ⟨hknown, fun hover => cutOff_mono hgrows (hcut hover)⟩
  · rw [trace_commit_eq] at hentry
    rcases List.mem_append.mp hentry with hbefore | hnew
    · exact cutOff_mono ((List.prefix_append _ _).trans hgrows) (hw.routed entry hbefore effect id hseen hid hover)
    · rcases List.mem_cons.mp hnew with rfl | hnew
      · cases hseen
      · split at hnew
        · rw [List.mem_singleton.mp hnew] at hseen
          cases hseen
        · cases hnew

theorem Move.foreseen (h : Move own w u) (hground : Grounded w) (hw : Foreseen w) : Foreseen u := by
  cases h with
  | commit _ happly => exact hw.commit hground happly
  | hello _ happly => exact hw.commit hground happly
  | refuse happly =>
    obtain rfl := Cluster.Reachable.refused hground happly
    exact hw.same rfl rfl rfl rfl
  | call =>
    unfold World.call
    split
    · exact hw.one rfl (fun _ heq => by cases heq) rfl rfl rfl
    · exact hw.same rfl rfl rfl rfl
  | answerStart lease machine session reply =>
    have hanswer : Foreseen (w.answer (.executionStart lease machine session) reply) :=
      hw.one rfl (fun _ heq => by cases heq) rfl rfl rfl
    refine answerStart_cases (w := w) (motive := Foreseen) lease machine session reply ?_ ?_ ?_
    · exact fun _ => hanswer.same rfl rfl rfl rfl
    · exact fun _ _ _ happly => hanswer.commit hground happly
    · intro reason e left happly
      obtain rfl := Cluster.Reachable.refused hground happly
      exact hanswer.same rfl rfl rfl rfl
  | @pop effect rest hpending =>
    have hgrows : w.trace <+: w.trace ++ [⟨w.service, .routed effect⟩] := List.prefix_append _ _
    refine ⟨fun other hother id hid => ?_, fun entry hentry other id hseen hid hover => ?_⟩
    · have hmem : other ∈ w.service.pending := by
        rw [hpending]
        exact List.mem_cons_of_mem _ hother
      obtain ⟨hknown, hcut⟩ := hw.queued other hmem id hid
      exact ⟨hknown, fun hover => cutOff_mono hgrows (hcut hover)⟩
    · rcases List.mem_append.mp hentry with hbefore | hnew
      · exact cutOff_mono hgrows (hw.routed entry hbefore other id hseen hid hover)
      · rw [List.mem_singleton.mp hnew] at hseen hover
        cases hseen
        have hmem : effect ∈ w.service.pending := by
          rw [hpending]
          exact List.mem_cons_self
        exact cutOff_mono hgrows ((hw.queued effect hmem id hid).2 hover)
  | persist | answer | drain | report | recover | join | recovered =>
    exact hw.one rfl (fun _ heq => by cases heq) rfl rfl rfl
  | clock | hold | rehold | activate | adopt | start | stop | await | status | endpoints | stray | closed
  | session | inert => exact hw.same rfl rfl rfl rfl

theorem Stir.foreseen (h : Stir licence w u) (hground : Grounded w) (hw : Foreseen w) : Foreseen u := by
  cases h with
  | move hmove => exact Move.foreseen hmove hground hw
  | opening _ _ happly => exact hw.commit hground happly
  | @grant admission effects cluster index _ _ _ _ happly =>
    have hset : Foreseen (w.setState (w.service.state.admitted admission index)) := hw.same rfl rfl rfl rfl
    exact hset.commit hground happly
  | deny _ _ _ happly =>
    obtain rfl := Cluster.Reachable.refused hground happly
    exact hw.same rfl rfl rfl rfl
  | enqueue | enroll | draw | restart | cancel | enlist =>
    exact hw.one rfl (fun _ heq => by cases heq) rfl rfl rfl
  | bind | tally | giveUp | regroup | restore => exact hw.same rfl rfl rfl rfl

namespace Process

theorem foreseen_boot (cluster : Cluster) (state : ServiceState) (durableSink : Bool) :
    Foreseen (boot cluster state durableSink).world where
  queued effect heffect := by cases heffect
  routed entry hentry := by cases hentry

/-- In every run, an effect that sets up a binding of an ended lease was cut off before. -/
theorem run_foreseen {cluster : Cluster} {state : ServiceState} (hcluster : cluster.Reachable)
    (hstate : Numbered state) (durableSink : Bool) (operations : List Operation) :
    Foreseen ((boot cluster state durableSink).run operations).world :=
  (run_stirs (kept_boot hcluster hstate durableSink) (foreseen_boot cluster state durableSink)
    (fun _ _ hkept hstir hw => hstir.foreseen hkept.now.grounded hw) (permits_unrestricted operations)).2

end Process
end Archon.Node
