import Archon.Control.Journal
import Archon.Node.Durable

/-! A controller over its files. What the controller gives the sink becomes the journal,
record by record, so whenever it goes down a boot finds what the sink was given last;
between operations this is all that the controller has. -/
namespace Archon.Control
open Archon.Kernel Archon.Node Archon.Node.Service Fallible CommandLog

namespace Plane

/-- The plane of a first boot. -/
def first (codec : Codec) : Plane := opening ⟨none, ⟨[]⟩⟩ [] (⟨.new, []⟩, 0) codec.toSerde

/-- The sink takes up what it is given. -/
def follow (codec : Codec) (self : Plane) (entry : Entry) : Except Fault Plane :=
  match entry.seen with
  | .persisted command => sink codec command { self with service := entry.service }
  | _ => .ok self

def followAll (codec : Codec) (self : Plane) (trace : List Entry) : Except Fault Plane :=
  trace.foldlM (follow codec) self

end Plane

theorem boot_first (codec : Codec) : boot codec ⟨none, ⟨[]⟩⟩ = .ok (.first codec) := rfl

/-- The serialiser is good for what is written: each record is one line that reads back, and states
that differ are written differently. -/
structure Writable (codec : Codec) (begun : Plane) (trace : List Entry) : Prop where
  keeps : ∀ before entry after command p, trace = before ++ entry :: after →
    entry.seen = .persisted command → begun.followAll codec before = .ok p →
    Keeps codec.toSerde (.controller (Plane.nextRecord { p with service := entry.service } command))
  states : ∀ entry ∈ deposits trace, codec.stateToVec entry.service.state ≠ [] ∧
    ∀ other ∈ deposits trace, codec.stateToVec entry.service.state = codec.stateToVec other.service.state →
      entry.service.state = other.service.state

section Following
variable {codec : Codec} {begun p q : Plane} {start : NodeService} {trace : List Entry}

theorem Writable.before {extra : List Entry} (h : Writable codec begun (trace ++ extra)) :
    Writable codec begun trace where
  keeps before entry after command p htrace :=
    h.keeps before entry (after ++ extra) command p (by rw [htrace]; simp)
  states entry hentry := by
    have hmem : ∀ other ∈ deposits trace, other ∈ deposits (trace ++ extra) := fun other hother => by
      rw [deposits_append]
      exact List.mem_append_left _ hother
    obtain ⟨hblank, halike⟩ := h.states entry (hmem entry hentry)
    exact ⟨hblank, fun other hother => halike other (hmem other hother)⟩

/-- The plane stands for what the sink was given last, and compares with its state. -/
structure Followed (codec : Codec) (start : NodeService) (trace : List Entry) (p : Plane) : Prop where
  running : ∃ service saved, Running codec { p with service } saved ∧
    saved.state = (held start trace).state ∧ saved.cluster.Twin (held start trace).cluster
  blank : deposits trace = [] → p.lastState = []
  last : ∀ entry, (deposits trace).getLast? = some entry →
    p.lastState = codec.stateToVec entry.service.state

theorem Followed.deposited {entry : Entry} {command : Option Command} (hseen : entry.seen = .persisted command)
    (service : NodeService) {saved : Saved} (hrunning : Running codec { p with service } saved)
    (hstate : saved.state = entry.service.state) (hcluster : saved.cluster.Twin entry.service.cluster)
    (hlast : p.lastState = codec.stateToVec entry.service.state) :
    Followed codec start (trace ++ [entry]) p := by
  have hnew : deposits (trace ++ [entry]) = deposits trace ++ [entry] := by
    rw [deposits_append]
    refine congrArg (deposits trace ++ ·) (List.filter_cons_of_pos ?_)
    rw [hseen]
    rfl
  refine ⟨⟨service, saved, hrunning, ?_, ?_⟩, fun hnil => ?_, fun other hother => ?_⟩
  · rw [held_of_new hnew, hstate]
  · rw [held_of_new hnew]
    exact hcluster
  · rw [hnew] at hnil
    simp at hnil
  · rw [hnew, List.getLast?_concat, Option.some.injEq] at hother
    rw [← hother]
    exact hlast

theorem Followed.passed {entry : Entry} (h : Followed codec start trace p)
    (hseen : entry.seen.isDeposit = false) : Followed codec start (trace ++ [entry]) p := by
  have hsame : deposits (trace ++ [entry]) = deposits trace := by
    have hnone : deposits [entry] = [] := List.filter_cons_of_neg (by simp [hseen])
    rw [deposits_append, hnone, List.append_nil]
  obtain ⟨service, saved, hrunning, hstate, hcluster⟩ := h.running
  refine ⟨⟨service, saved, hrunning, ?_, ?_⟩, ?_, ?_⟩
  · rw [held_of_same hsame, hstate]
  · rw [held_of_same hsame]
    exact hcluster
  · rw [hsame]
    exact h.blank
  · rw [hsame]
    exact h.last

theorem Followed.state_eq {entry : Entry} (h : Followed codec start trace p)
    (hwritable : Writable codec begun (trace ++ [entry])) (hentry : entry.seen.isDeposit)
    (hskip : codec.stateToVec entry.service.state = p.lastState) :
    entry.service.state = (held start trace).state := by
  have hall : deposits (trace ++ [entry]) = deposits trace ++ [entry] := by
    rw [deposits_append]
    exact congrArg (deposits trace ++ ·) (List.filter_cons_of_pos hentry)
  obtain ⟨hne, halike⟩ := hwritable.states entry (by rw [hall]; simp)
  cases hlast : (deposits trace).getLast? with
  | none =>
    rw [List.getLast?_eq_none_iff] at hlast
    rw [h.blank hlast] at hskip
    exact absurd hskip hne
  | some before =>
    rw [h.last before hlast] at hskip
    rw [held, hlast]
    refine halike before ?_ hskip
    rw [hall]
    exact List.mem_append_left _ (List.mem_of_getLast? hlast)

theorem Followed.step {entry : Entry} (h : Followed codec start trace p)
    (hchain : Chain start trace entry) (hwritable : Writable codec begun (trace ++ [entry]))
    (hbefore : begun.followAll codec trace = .ok p) (hfollow : p.follow codec entry = .ok q) :
    Followed codec start (trace ++ [entry]) q := by
  unfold Plane.follow at hfollow
  split at hfollow
  · rename_i command hseen
    have hkeeps := hwritable.keeps trace entry [] command p rfl hseen hbefore
    obtain ⟨service, saved, hrunning, hstate, hcluster⟩ := h.running
    have hlive : service.cluster.Twin (held start trace).cluster :=
      hrunning.recovers.live.symm.trans hcluster
    cases command with
    | some command =>
      obtain ⟨cluster, effects, htwin, happly⟩ := hchain.2 command hseen
      have hidle := hrunning.idle { entry.service with cluster } (hlive.trans htwin)
      obtain ⟨-, hq⟩ := sink_ok (.inl rfl) hfollow
      have hcommitted : Running codec q ⟨entry.service.cluster, entry.service.state⟩ :=
        hidle.commit happly hkeeps hfollow
      exact .deposited hseen q.service hcommitted rfl (.refl _) (by rw [hq])
    | none =>
      have hidle := hrunning.idle entry.service (hlive.trans (hchain.1 hseen))
      by_cases hskip : codec.stateToVec entry.service.state = p.lastState
      · have hsame : q = { p with service := entry.service } := by
          unfold Plane.sink at hfollow
          dsimp only at hfollow
          rw [if_pos (by simpa using hskip)] at hfollow
          cases hfollow
          rfl
        have hentry : entry.seen.isDeposit := by
          rw [hseen]
          rfl
        rw [hsame]
        exact .deposited hseen entry.service hidle
          (hstate.trans (h.state_eq hwritable hentry hskip).symm) (hcluster.trans (hchain.1 hseen))
          hskip.symm
      · obtain ⟨-, hq⟩ := sink_ok (.inr hskip) hfollow
        have haccepted : Running codec q ⟨entry.service.cluster, entry.service.state⟩ :=
          hidle.accept hskip hkeeps hfollow
        exact .deposited hseen q.service haccepted rfl (.refl _) (by rw [hq])
  · rename_i hunseen
    cases hfollow
    refine h.passed ?_
    cases hseen : entry.seen with
    | persisted command => exact absurd hseen (hunseen command)
    | _ => rfl

/-- Record by record, the journal is a run of the plane. -/
theorem followed (hbegun : Running codec begun ⟨start.cluster, start.state⟩) (hblank : begun.lastState = [])
    (hchain : Throughout (Chain start) trace) (hwritable : Writable codec begun trace)
    (hfollow : begun.followAll codec trace = .ok p) : Followed codec start trace p := by
  induction trace using List.reverseRecOn generalizing p with
  | nil =>
    cases hfollow
    exact ⟨⟨begun.service, _, hbegun, rfl, .refl _⟩, fun _ => hblank, fun entry hentry => by cases hentry⟩
  | append_singleton before entry ih =>
    rw [Plane.followAll, List.foldlM_append, check_bind_ok] at hfollow
    obtain ⟨middle, hbefore, hlast⟩ := hfollow
    have hstep : middle.follow codec entry = .ok p := by
      rw [List.foldlM_cons, check_bind_ok] at hlast
      obtain ⟨next, hnext, hnil⟩ := hlast
      cases hnil
      exact hnext
    have hfollowed := ih hchain.initial hwritable.before hbefore
    exact hfollowed.step (hchain before entry [] (by simp)) hwritable hbefore hstep

/-! Over whole runs. -/

end Following

namespace Sample

/-- One command, and a change that leaves the state as it was. -/
def changes : List Operation := [.apply (.applyGraph [] []), .removeServiceGroup "g"]

def changed : World := ((Process.new true).run changes).world

theorem changed_trace : ∃ first second third, changed.trace = [first, second, third] ∧
    first.seen = .committed (.applyGraph [] []) ∧ second.seen = .persisted (some (.applyGraph [] [])) ∧
      third.seen = .persisted none ∧ second.service.state = .new ∧ third.service.state = .new :=
  ⟨_, _, _, rfl, rfl, rfl, rfl, rfl, rfl⟩

theorem stateToVec_ne (state : ServiceState) : codec.stateToVec state ≠ [] := by
  have hne : bytesOf stateText ≠ [] := by decide +kernel
  simp only [codec]
  exact hne

theorem first_sink (codec : Codec) (service : NodeService) (command : Command) : ∃ p,
    Plane.sink codec (some command) { Plane.first codec with service } = .ok p ∧
      p.journalSequence = 1 ∧ p.lastState = codec.stateToVec service.state := by
  have hroom : (Plane.first codec).journalSequence ≠ 18446744073709551615 := by
    change (0 : UInt64) ≠ 18446744073709551615
    decide
  unfold Plane.sink
  dsimp only
  rw [if_neg (by simp), if_neg hroom]
  exact ⟨_, rfl, rfl, rfl⟩

theorem first_followed {first second : Entry} (hfirst : first.seen = .committed (.applyGraph [] []))
    (hsecond : second.seen = .persisted (some (.applyGraph [] []))) : ∃ p,
      (Plane.first codec).followAll codec [first, second] = .ok p ∧ p.journalSequence = 1 ∧
        p.lastState = codec.stateToVec second.service.state := by
  obtain ⟨p, hp, hsequence, hlast⟩ := first_sink codec second.service (.applyGraph [] [])
  refine ⟨p, ?_, hsequence, hlast⟩
  simp only [Plane.followAll, List.foldlM_cons, List.foldlM_nil, check_bind_ok, check_pure_ok]
  refine ⟨.first codec, ?_, p, ?_, rfl⟩
  · simp only [Plane.follow, hfirst]
  · simp only [Plane.follow, hsecond]
    exact hp

theorem changed_followed : ∃ p, (Plane.first codec).followAll codec changed.trace = .ok p ∧
    p.journalSequence = 1 := by
  obtain ⟨first, second, third, htrace, hfirst, hsecond, hthird, -⟩ := changed_trace
  obtain ⟨p, hp, hsequence, hlast⟩ := first_followed hfirst hsecond
  refine ⟨{ p with service := third.service }, ?_, hsequence⟩
  have hsplit : changed.trace = [first, second] ++ [third] := htrace
  rw [hsplit, Plane.followAll, List.foldlM_append, check_bind_ok]
  refine ⟨p, hp, ?_⟩
  simp only [List.foldlM_cons, List.foldlM_nil, check_bind_ok, check_pure_ok]
  refine ⟨{ p with service := third.service }, ?_, rfl⟩
  have hskip : codec.stateToVec third.service.state = p.lastState := hlast.symm
  simp only [Plane.follow, hthird]
  unfold Plane.sink
  dsimp only
  rw [if_pos]
  rw [Option.isNone_none, Bool.true_and, decide_eq_true_eq]
  exact hskip

theorem changed_writable : Writable codec (.first codec) changed.trace := by
  obtain ⟨first, second, third, htrace, hfirst, hsecond, hthird, hstate, hstate'⟩ := changed_trace
  rw [htrace]
  have hdeposits : ∀ entry ∈ deposits [first, second, third], entry.service.state = .new := by
    simp [deposits, hfirst, hsecond, hthird, Observation.isDeposit, hstate, hstate']
  refine ⟨fun before entry rest command p hsplit hseen hfollow => ?_, fun entry hentry => ?_⟩
  · rcases before with _ | ⟨a, _ | ⟨b, _ | ⟨c, tail⟩⟩⟩
    · cases hsplit
      rw [hfirst] at hseen
      cases hseen
    · cases hsplit
      rw [hsecond] at hseen
      cases hseen
      have hp : p = .first codec := by
        simp only [Plane.followAll, List.foldlM_cons, List.foldlM_nil, Plane.follow, hfirst] at hfollow
        cases hfollow
        rfl
      have hrecord : Plane.nextRecord { p with service := second.service } (some (.applyGraph [] [])) =
          firstRecord := by
        rw [hp, Plane.nextRecord, hstate]
        rfl
      rw [hrecord]
      exact firstKeeps
    · cases hsplit
      rw [hthird] at hseen
      cases hseen
      obtain ⟨q, hq, hsequence, -⟩ := first_followed hfirst hsecond
      have hp : p = q := Except.ok.inj (hfollow.symm.trans hq)
      subst hp
      have hrecord : Plane.nextRecord { p with service := third.service } none = secondRecord := by
        rw [Plane.nextRecord, hstate', hsequence]
        rfl
      rw [hrecord]
      exact secondKeeps
    · simp at hsplit
  · have hsame : ∀ other ∈ deposits [first, second, third], entry.service.state = other.service.state :=
      fun other hother => by rw [hdeposits entry hentry, hdeposits other hother]
    exact ⟨stateToVec_ne _, fun other hother _ => hsame other hother⟩

end Sample

end Archon.Control
