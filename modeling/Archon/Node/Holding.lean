import Archon.Node.CutOff

/-! Held effects. An effect is held by what its lease is, whatever its phase; as long as no lease
ends over a setup that is still queued, only teardowns are taken up when their binding has to
wait, so only teardowns are held, and the arms for the other phases are never reached. -/
namespace Archon.Node
open Archon.Kernel Fallible Service

/-- Only teardowns wait for the proof of a stop. -/
def Teardowns (s : NodeService) : Prop := ∀ held ∈ s.heldEffects, held.phase.isTeardown

/-- A prepare or an activate is taken from the queue and has to wait for a stop. -/
def Entry.strands (entry : Entry) : Bool :=
  match entry.seen with
  | .routed effect => (effectCall effect).any fun held =>
    !held.phase.isTeardown && awaitsStop entry.service held.binding
  | _ => false

theorem strands_of_routed {entry : Entry} {held : Held} (h : held.RoutedBy entry)
    (hphase : held.phase.isTeardown = false) : entry.strands := by
  obtain ⟨effect, hseen, hcall, hawaits⟩ := h
  rw [Entry.strands, hseen]
  dsimp only
  rw [hcall, Option.any_some, hphase, hawaits]
  rfl

/-- What strands sets a binding up. -/
theorem setup_of_strands {entry : Entry} (h : entry.strands) : ∃ effect id,
    entry.seen = .routed effect ∧ effect.setsUp = some id ∧ awaitsStop entry.service id := by
  unfold Entry.strands at h
  split at h
  · rename_i effect hseen
    obtain ⟨held, hcall, hheld⟩ := (Option.any_eq_true _ _).mp h
    simp only [Bool.and_eq_true, Bool.not_eq_true'] at hheld
    refine ⟨effect, held.binding, hseen, ?_, hheld.2⟩
    cases effect with
    | prepare | activate =>
      cases hcall
      rfl
    | release | fence =>
      cases hcall
      cases hheld.1
    | reconcile => cases hcall
  · cases h

theorem ended_of_awaitsStop {s : NodeService} {id : BindingId} (h : awaitsStop s id) :
    bindingEnded s.cluster id := by
  obtain ⟨record, hrecord, hany⟩ := (Option.any_eq_true _ _).mp h
  obtain ⟨machine, -, hhold⟩ := (Option.any_eq_true _ _).mp hany
  unfold mustHold NodeService.leaseIsTerminal at hhold
  simp only [Bool.and_eq_true] at hhold
  rw [bindingEnded, hrecord]
  exact hhold.1.1.1

variable {own : Bool} {licence : Licence} {w u : World}

/-- What a step holds was held before, tears down, or was taken up to wait; what it shows was
held before it. -/
structure Holds (w u : World) : Prop where
  grows : w.trace <+: u.trace
  shown : ∀ entry ∈ u.trace, entry ∈ w.trace ∨ entry.service.heldEffects = w.service.heldEffects
  held : ∀ held ∈ u.service.heldEffects, held ∈ w.service.heldEffects ∨ held.phase.isTeardown ∨
    ∃ entry ∈ w.trace, held.RoutedBy entry ∨ held ∈ entry.service.heldEffects

/-- A step that leaves the held effects alone. -/
theorem Holds.still {extra : List Entry} (htrace : u.trace = w.trace ++ extra)
    (hextra : ∀ entry ∈ extra, entry.service.heldEffects = w.service.heldEffects)
    (hheld : u.service.heldEffects = w.service.heldEffects) : Holds w u := by
  refine ⟨by rw [htrace]; exact List.prefix_append _ _, fun entry hentry => ?_, fun held hmem => ?_⟩
  · rw [htrace] at hentry
    exact (List.mem_append.mp hentry).imp_right (hextra entry)
  · rw [hheld] at hmem
    exact .inl hmem

theorem Holds.none (htrace : u.trace = w.trace) (hheld : u.service.heldEffects = w.service.heldEffects) :
    Holds w u := @Holds.still w u [] (by rw [htrace, List.append_nil]) (by simp) hheld

theorem Holds.one {entry : Entry} (htrace : u.trace = w.trace ++ [entry])
    (hentry : entry.service.heldEffects = w.service.heldEffects)
    (hheld : u.service.heldEffects = w.service.heldEffects) : Holds w u :=
  .still htrace (by simpa using hentry) hheld

theorem commit_holds (command : Command) (effects : List Effect) (cluster : Cluster) :
    Holds w (w.commit command effects cluster) := by
  refine .still (trace_commit_eq command effects cluster) (fun entry hentry => ?_) (by rw [service_commit])
  rcases List.mem_cons.mp hentry with rfl | hentry
  · rfl
  · split at hentry
    · rw [List.mem_singleton.mp hentry]
    · cases hentry

/-- A step after one observation. -/
theorem Holds.observed {v : World} {entry : Entry} (htrace : v.trace = w.trace ++ [entry])
    (hentry : entry.service.heldEffects = w.service.heldEffects)
    (hheld : v.service.heldEffects = w.service.heldEffects) (h : Holds v u)
    (hsame : u.service.heldEffects = v.service.heldEffects) : Holds w u := by
  have hgrows : w.trace <+: v.trace := by
    rw [htrace]
    exact List.prefix_append _ _
  refine ⟨hgrows.trans h.grows, fun other hother => ?_, fun held hmem => ?_⟩
  · rcases h.shown other hother with hold | hnew
    · rw [htrace] at hold
      rcases List.mem_append.mp hold with hbefore | hlast
      · exact .inl hbefore
      · rw [List.mem_singleton.mp hlast]
        exact .inr hentry
    · exact .inr (hnew.trans hheld)
  · rw [hsame, hheld] at hmem
    exact .inl hmem

theorem Move.holds (h : Move own w u) : Holds w u := by
  cases h with
  | commit => exact commit_holds _ _ _
  | hello => exact commit_holds _ _ _
  | call =>
    unfold World.call
    split
    · exact .one rfl rfl rfl
    · exact .none rfl rfl
  | answerStart lease machine session reply =>
    refine answerStart_cases lease machine session reply (fun _ => .one rfl rfl rfl) ?_
      fun _ _ _ _ => .one rfl rfl rfl
    intro reason effects cluster _
    exact .observed (v := w.answer _ reply) rfl rfl rfl (commit_holds _ _ _) (by rw [service_commit])
  | hold held hsource =>
    refine ⟨List.prefix_rfl, fun entry hentry => .inl hentry, fun other hmem => ?_⟩
    rcases Std.ExtTreeMap.mem_insert.mp hmem with heq | hold
    · rw [← Std.LawfulEqOrd.eq_of_compare heq]
      rcases hsource with hphase | ⟨entry, hentry, hrouted⟩
      · exact .inr (.inl hphase)
      · exact .inr (.inr ⟨entry, hentry, .inl hrouted⟩)
    · exact .inl hold
  | rehold held hsource =>
    refine ⟨List.prefix_rfl, fun entry hentry => .inl hentry, fun other hmem => ?_⟩
    rcases Std.ExtTreeMap.mem_insert.mp hmem with heq | hold
    · rw [← Std.LawfulEqOrd.eq_of_compare heq]
      obtain ⟨entry, hentry, hheld⟩ := hsource
      exact .inr (.inr ⟨entry, hentry, .inr hheld⟩)
    · exact .inl hold
  | drain =>
    refine ⟨List.prefix_append _ _, fun entry hentry => ?_, fun held hmem => ?_⟩
    · rcases List.mem_append.mp hentry with hold | hlast
      · exact .inl hold
      · rw [List.mem_singleton.mp hlast]
        exact .inr rfl
    · simp [World.update] at hmem
  | persist | answer | pop | report | recover | join | recovered => exact .one rfl rfl rfl
  | refuse | clock | activate | adopt | start | stop | await | status | endpoints | stray | closed
  | session | inert => exact .none rfl rfl

theorem Stir.holds (h : Stir licence w u) : Holds w u := by
  cases h with
  | move hmove => exact Move.holds hmove
  | opening => exact commit_holds _ _ _
  | @grant admission effects cluster index =>
    have hcommit := @commit_holds (w.setState (w.service.state.admitted admission index))
      (w.openCommand admission) effects cluster
    exact ⟨hcommit.grows, hcommit.shown, hcommit.held⟩
  | restore =>
    refine ⟨List.prefix_rfl, fun entry hentry => .inl hentry, fun held hmem => ?_⟩
    simp [World.update] at hmem
  | enqueue | enroll | draw | restart | cancel | enlist => exact .one rfl rfl rfl
  | bind | deny | tally | giveUp | regroup => exact .none rfl rfl

/-- Where nothing strands, only teardowns are held and were held. -/
def Sheltered (w : World) : Prop :=
  (∀ entry ∈ w.trace, entry.strands = false) →
    (∀ entry ∈ w.trace, Teardowns entry.service) ∧ Teardowns w.service

theorem Stir.sheltered (h : Stir licence w u) (hw : Sheltered w) : Sheltered u := by
  intro hclear
  have hholds := h.holds
  have hbefore : ∀ entry ∈ w.trace, entry.strands = false := fun entry hentry =>
    hclear entry (hholds.grows.subset hentry)
  obtain ⟨hshown, hnow⟩ := hw hbefore
  constructor
  · intro entry hentry
    rcases hholds.shown entry hentry with hold | hnew
    · exact hshown entry hold
    · unfold Teardowns
      rw [hnew]
      exact hnow
  · intro held hmem
    rcases hholds.held held hmem with hold | hphase | ⟨entry, hentry, hrouted | hheld⟩
    · exact hnow held hold
    · exact hphase
    · cases hphase : held.phase.isTeardown with
      | true => rfl
      | false =>
        have hstrands := strands_of_routed hrouted hphase
        rw [hbefore entry hentry] at hstrands
        cases hstrands
    · exact hshown entry hentry held hheld

namespace Process

/-- In every run in which no command ends a lease while a prepare or an activate of one of its bindings is
queued, and none opens again a preparing binding of a lease that is over, only teardowns are ever held. A
binding that never has to wait for a stop makes no difference. -/
theorem held_effects_are_teardowns {cluster : Cluster} {state : ServiceState}
    (hcluster : cluster.Reachable) (hstate : Numbered state) (durableSink : Bool)
    {operations : List Operation}
    (h : ∀ binding ∈ cutOff ((boot cluster state durableSink).run operations).world.trace,
      ∀ entry ∈ ((boot cluster state durableSink).run operations).world.trace,
        awaitsStop entry.service binding = false) :
    (∀ entry ∈ ((boot cluster state durableSink).run operations).world.trace,
      Teardowns entry.service) ∧
      Teardowns ((boot cluster state durableSink).run operations).world.service := by
  have hstart : Sheltered (boot cluster state durableSink).world := by
    refine fun _ => ⟨fun entry hentry => ?_, fun held hheld => ?_⟩
    · cases hentry
    · simp [boot, NodeService.new] at hheld
  have hsheltered := (run_stirs (kept_boot hcluster hstate durableSink) hstart
    (fun w u _ hstir hw => hstir.sheltered hw) (permits_unrestricted operations)).2
  have hforeseen := run_foreseen hcluster hstate durableSink operations
  refine hsheltered fun entry hentry => Bool.eq_false_iff.mpr fun hstrands => ?_
  obtain ⟨effect, id, hseen, hid, hawaits⟩ := setup_of_strands hstrands
  have hcut := hforeseen.routed entry hentry effect id hseen hid (ended_of_awaitsStop hawaits)
  rw [h id hcut entry hentry] at hawaits
  cases hawaits

namespace Sample

/-- A program's only binding is fenced before its process is known to be gone. -/
def revoked : List Operation :=
  [.register twoCpus capable,
   .submit (program 1 [⟨.cpu, qty .count 1, []⟩]) 1,
   .admitOne .default,
   .revoke 1]

/-- The memory is bound exclusively by a first lease, so the second binding of a second lease
is refused; its first one is left to be prepared until the lease is revoked. -/
def stranded : List Operation :=
  [.register twoCpus capable,
   .apply (.applyProviderFacts [] [⟨4, .bytes, some ⟨.enforce, .exclusive⟩⟩]),
   .submit (program 1 [⟨.memory, qty .bytes 2, []⟩]) 1,
   .admitOne .default,
   .submit (program 2 [⟨.cpu, qty .count 1, []⟩, ⟨.memory, qty .bytes 2, []⟩]) 1,
   .admitOne .default,
   .revoke 2]

end Sample

theorem revoked_program_holds_teardowns :
    ((∀ entry ∈ ((boot .new .new false).run Sample.revoked).world.trace, Teardowns entry.service) ∧
      Teardowns ((boot .new .new false).run Sample.revoked).world.service) ∧
    (⟨1, .fence⟩ : Held) ∈ ((boot .new .new false).run Sample.revoked).world.service.heldEffects := by
  constructor
  · exact @held_effects_are_teardowns .new .new ⟨[], rfl⟩ numbered_new false
      Sample.revoked (by decide +kernel)
  · decide +kernel

/-- A prepare is held, and the answer to the stop of its lease ends the process. -/
theorem stranded_prepare_held :
    (⟨2, .prepare⟩ : Held) ∈ ((boot .new .new false).run Sample.stranded).world.service.heldEffects ∧
    ((boot .new .new false).run Sample.stranded).alive ∧
    ((boot .new .new false).run (Sample.stranded ++
      [.post (.executionStop 2 1 1) (.ok (.executionStopped 2)), .drive []])).alive = false := by
  refine ⟨?_, ?_, ?_⟩
  · decide +kernel
  · decide +kernel
  · decide +kernel

end Process
end Archon.Node
