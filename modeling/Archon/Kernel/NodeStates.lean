import Archon.Kernel.Ownership

/-! Node states. The guard on making a node schedulable looks at the state the
node is in and lets a draining one pass, so a node that was quarantined,
unavailable or joining can be drained and then scheduled over open bindings. -/
namespace Archon.Kernel

/-- The states whose resources may still be held by someone unknown. -/
def NodeState.isSuspect : NodeState → Bool
  | .quarantined | .unavailable | .joining => true
  | _ => false

namespace Cluster

/-- Whether an open binding is on the node or beneath it. -/
def heldBeneath (c : Cluster) (node : NodeId) : Bool :=
  (OrdMap.vals c.bindings).any fun binding => !binding.state.isClosed &&
    (binding.node = node || node ∈ c.graph.ancestors binding.node)

/-- The cluster, and whether the node was suspect since it was last schedulable. -/
def watch (node : NodeId) : Cluster × Bool → Event → Cluster × Bool :=
  Runs.track take fun c event suspect => ((c.take event).nodeState node).any fun state =>
    !state.isSchedulable && (suspect || state.isSuspect)

def watched (node : NodeId) (events : List Event) : Cluster × Bool :=
  Runs.run (watch node) (new, false) events

/-- Whether an event makes a watched node schedulable straight from draining,
over open bindings, although it was suspect before it drained. -/
def skipsCheck (node : NodeId) (seen : Cluster × Bool) : Event → Bool
  | .apply (.setNodeState target .schedulable) =>
    target = node && seen.2 && seen.1.nodeState node = some .draining && seen.1.heldBeneath node
  | _ => false

/-- Whether an event drains a suspect node. -/
def drainsSuspect (c : Cluster) : Event → Bool
  | .apply (.setNodeState node .draining) => (c.nodeState node).any NodeState.isSuspect
  | _ => false

section Step
variable {c c' : Cluster} {command : Command}

theorem nodeState_eq_some {node : NodeId} {state : NodeState} :
    c.nodeState node = some state ↔
      c.graph.nodes[node]? ≠ none ∧ c.nodeStates[node]?.getD .schedulable = state := by
  unfold nodeState Graph.node
  cases c.graph.nodes[node]? <;> simp

theorem heldBeneath_eq_false {node : NodeId} :
    c.heldBeneath node = false ↔ ∀ (id : BindingId) (binding : Binding),
      c.bindings[id]? = some binding → binding.state.isClosed = false →
      binding.node ≠ node ∧ node ∉ c.graph.ancestors binding.node := by
  simp only [heldBeneath, List.any_eq_false, OrdMap.mem_vals, Bool.and_eq_true, Bool.not_eq_true',
    Bool.or_eq_true, decide_eq_true_eq, not_and, not_or, forall_exists_index]
  exact forall_comm

/-- A node stays in its state, or a command sets it past the guards. -/
theorem nodeState_step (hstep : Step c command c') {node : NodeId} {state : NodeState}
    (hstate : c.nodeState node = some state) :
    c'.nodeState node = some state ∨ ∃ next, Restated c command node next ∧
      StateAllowed c node next state ∧ c'.nodeState node = some next := by
  obtain ⟨hknown, hentry⟩ := nodeState_eq_some.mp hstate
  have hkept := (facts_step hstep).1.kept node hknown
  have hsame : c'.nodeStates = c.nodeStates → c'.nodeState node = some state := fun heq =>
    nodeState_eq_some.mpr ⟨hkept, by rw [heq]; exact hentry⟩
  cases hstep with
  | @restate _ target next current hcommand hallowed =>
    by_cases htarget : target = node
    · subst htarget
      obtain rfl : current = state := by
        have hcurrent := hallowed.known
        rw [hstate] at hcurrent
        cases hcurrent
        rfl
      refine .inr ⟨next, hcommand, hallowed, nodeState_eq_some.mpr ⟨hkept, ?_⟩⟩
      simp only
      split
      · rename_i hnext
        simp [hnext]
      · simp
    · refine .inl (nodeState_eq_some.mpr ⟨hkept, ?_⟩)
      simp only
      split <;> simp [Std.ExtTreeMap.getElem?_erase, OrdMap.get_insert, htarget, hentry]
  | retry | install | annotate | enter | advance | release | finish | bind | rebind | lose | hello
  | raise => exact .inl (hsame rfl)

end Step

/-! Runs. -/

/-- One event on one node. -/
theorem nodeState_event (before : List Event) (event : Event) {node : NodeId} {state : NodeState}
    (hstate : (run before).nodeState node = some state) :
    (run (before ++ [event])).nodeState node = some state ∨
      ∃ command next, event = .apply command ∧ Restated (run before) command node next ∧
        StateAllowed (run before) node next state ∧
        (run (before ++ [event])).nodeState node = some next := by
  refine @Taken.preserves (fun reached => reached.nodeState node = some state ∨
    ∃ command next, event = .apply command ∧ Restated (run before) command node next ∧
      StateAllowed (run before) node next state ∧ reached.nodeState node = some next)
    (fun _ _ _ _ _ h => h) _ _ _ (taken_run before event) (.inl hstate) ?_
  intro command c' hevent hstep
  rcases nodeState_step hstep hstate with hkept | ⟨next, hrestated, hallowed, hnext⟩
  · exact .inl hkept
  · exact .inr ⟨command, next, hevent, hrestated, hallowed, hnext⟩

theorem nodeState_known {before after : List Event} {node : NodeId}
    (h : (run before).nodeState node ≠ none) : (run (before ++ after)).nodeState node ≠ none := by
  obtain ⟨state, hstate⟩ := Option.ne_none_iff_exists'.mp h
  have hknown := (factsKept_run before after).node node (nodeState_eq_some.mp hstate).1
  rw [nodeState_eq_some.mpr ⟨hknown, rfl⟩]
  simp

theorem watched_cluster (node : NodeId) (events : List Event) :
    (watched node events).1 = run events :=
  Runs.run_track_fst _ false events

theorem watched_suspect (node : NodeId) (events : List Event) (event : Event) :
    (watched node (events ++ [event])).2 =
      ((run (events ++ [event])).nodeState node).any fun state =>
        !state.isSchedulable && ((watched node events).2 || state.isSuspect) := by
  rw [run_concat]
  exact Runs.run_track_snd _ false events event

/-- The node was suspect at some point since it was last schedulable. -/
def SuspectSince (node : NodeId) (events : List Event) : Prop :=
  ∃ earlier later, events = earlier ++ later ∧
    (∃ state, (run earlier).nodeState node = some state ∧ state.isSuspect) ∧
    ∀ reached, reached <+: later → (run (earlier ++ reached)).nodeState node ≠ some .schedulable

theorem NodeState.not_schedulable {state : NodeState} :
    state.isSchedulable = false ↔ state ≠ .schedulable := by
  cases state <;> simp [NodeState.isSchedulable]

theorem suspectSince_iff (node : NodeId) (events : List Event) :
    SuspectSince node events ↔ (watched node events).2 := by
  constructor
  · rintro ⟨earlier, later, rfl, ⟨state, hstate, hsuspect⟩, hsince⟩
    induction later using List.reverseRecOn with
    | nil =>
      rw [List.append_nil] at *
      cases earlier using List.reverseRecOn with
      | nil => simp [run, nodeState, new, Graph.node, Graph.new] at hstate
      | append_singleton events event =>
        rw [watched_suspect, hstate]
        cases state <;> simp_all [NodeState.isSuspect, NodeState.isSchedulable]
    | append_singleton later event ih =>
      have hbefore := ih fun reached hreached =>
        hsince reached (hreached.trans (List.prefix_append _ _))
      obtain ⟨now, hnow⟩ := Option.ne_none_iff_exists'.mp
        (@nodeState_known earlier (later ++ [event]) node (by simp [hstate]))
      have hstill := hsince _ List.prefix_rfl
      rw [hnow] at hstill
      rw [← List.append_assoc, watched_suspect, List.append_assoc, hnow]
      simp only [Option.any_some, hbefore, Bool.true_or, Bool.and_true, Bool.not_eq_true']
      exact NodeState.not_schedulable.mpr fun heq => hstill (congrArg some heq)
  · intro h
    induction events using List.reverseRecOn with
    | nil => simp [watched] at h
    | append_singleton events event ih =>
      rw [watched_suspect, Option.any_eq_true] at h
      obtain ⟨state, hstate, hcause⟩ := h
      simp only [Bool.and_eq_true, Bool.not_eq_true', Bool.or_eq_true] at hcause
      obtain ⟨hnot, hsince | hsuspect⟩ := hcause
      · obtain ⟨earlier, later, rfl, hearlier, hlater⟩ := ih hsince
        refine ⟨earlier, later ++ [event], List.append_assoc .., hearlier, fun reached hreached => ?_⟩
        rcases List.prefix_concat_iff.mp hreached with rfl | hreached
        · rw [← List.append_assoc, hstate]
          simpa using NodeState.not_schedulable.mp hnot
        · exact hlater reached hreached
      · refine ⟨events ++ [event], [], (List.append_nil _).symm, ⟨state, hstate, hsuspect⟩, ?_⟩
        intro reached hreached
        rw [List.prefix_nil.mp hreached, List.append_nil, hstate]
        simpa using NodeState.not_schedulable.mp hnot

/-- A suspect node becomes schedulable only with no open binding on or beneath it. -/
def LeftClean (node : NodeId) (before : List Event) (event : Event) : Prop :=
  ∀ state, (run before).nodeState node = some state → state ≠ .schedulable →
    (run (before ++ [event])).nodeState node = some .schedulable → SuspectSince node before →
    ∀ (id : BindingId) (binding : Binding), (run before).bindings[id]? = some binding →
      binding.state.isClosed = false →
      binding.node ≠ node ∧ node ∉ (run before).graph.ancestors binding.node

theorem leftClean_iff (node : NodeId) (before : List Event) (event : Event) :
    LeftClean node before event ↔ skipsCheck node (watched node before) event = false := by
  unfold LeftClean
  simp only [suspectSince_iff, ← heldBeneath_eq_false]
  constructor
  · intro h
    cases hskips : skipsCheck node (watched node before) event with
    | false => rfl
    | true =>
      unfold skipsCheck at hskips
      split at hskips
      · rename_i target
        simp only [Bool.and_eq_true, decide_eq_true_eq, watched_cluster] at hskips
        obtain ⟨⟨⟨rfl, hsuspect⟩, hdraining⟩, hheld⟩ := hskips
        have hstep : Step (run before) (.setNodeState target .schedulable) _ :=
          .restate .direct ⟨hdraining, by simp, by simp, by simp⟩
        have hnext : (run (before ++ [.apply (.setNodeState target .schedulable)])).nodeState target =
            some .schedulable := by
          rw [run_of_step hstep, nodeState_eq_some]
          exact ⟨(nodeState_eq_some.mp hdraining).1, by simp⟩
        rw [h .draining hdraining (by simp) hnext hsuspect] at hheld
        cases hheld
      · cases hskips
  · intro hskips state hstate hleft hnext hsuspect
    rcases nodeState_event before event hstate with
      hsame | ⟨command, next, rfl, hrestated, hallowed, hset⟩
    · rw [hsame] at hnext
      cases hnext
      exact absurd rfl hleft
    · rw [hset] at hnext
      cases hnext
      by_cases hdraining : state = .draining
      · subst hdraining
        cases hrestated with
        | direct => simpa [skipsCheck, hsuspect, watched_cluster, hstate] using hskips
        | unquarantine hquarantined => simp [hstate] at hquarantined
      · rw [heldBeneath_eq_false]
        intro id binding hbinding hopen
        exact hallowed.clean rfl hleft hdraining binding (OrdMap.mem_vals.mpr ⟨id, hbinding⟩) hopen

/-- While no suspect node is drained, a node that was suspect since it was last
schedulable is still suspect, or retired for good. -/
theorem suspect_kept (node : NodeId) (events : List Event)
    (halong : Runs.Along take (fun c event => c.drainsSuspect event = false) new events)
    (hsuspect : (watched node events).2) :
    ∃ state, (run events).nodeState node = some state ∧ (state.isSuspect ∨ state = .retired) := by
  induction events using List.reverseRecOn with
  | nil => simp [watched] at hsuspect
  | append_singleton events event ih =>
    obtain ⟨hbefore, hspared⟩ := (Runs.along_concat events event).mp halong
    rw [watched_suspect, Option.any_eq_true] at hsuspect
    obtain ⟨state, hstate, hcause⟩ := hsuspect
    refine ⟨state, hstate, ?_⟩
    simp only [Bool.and_eq_true, Bool.not_eq_true', Bool.or_eq_true] at hcause
    obtain ⟨hnot, hsince | hnow⟩ := hcause
    · obtain ⟨last, hlast, hcases⟩ := ih hbefore hsince
      rcases nodeState_event events event hlast with
        hsame | ⟨command, next, rfl, hrestated, hallowed, hset⟩
      · rw [hsame] at hstate
        cases hstate
        exact hcases
      · rw [hset] at hstate
        cases hstate
        cases state with
        | schedulable => cases hnot
        | draining =>
          -- only a direct command drains, and it meets a suspect or a retired node
          cases hrestated
          rcases hcases with hwas | rfl
          · have hlast' : (Runs.run take new events).nodeState node = some last := hlast
            simp [drainsSuspect, hlast', hwas] at hspared
          · exact absurd (hallowed.retired rfl) (by simp)
        | retired => exact .inr rfl
        | _ => exact .inl rfl
    · exact .inl hnow

/-- Along a run, a node leaves its suspect states clean exactly when the run never
schedules it straight from draining over open bindings after it was suspect; in
particular when the run drains no suspect node. -/
theorem quarantine_left_clean_iff (events : List Event) :
    (∀ node, (∀ before event, before ++ [event] <+: events → LeftClean node before event) ↔
      Runs.Along (watch node) (fun seen event => skipsCheck node seen event = false) (new, false)
        events) ∧
    (Runs.Along take (fun c event => c.drainsSuspect event = false) new events →
      ∀ node before event, before ++ [event] <+: events → LeftClean node before event) := by
  constructor
  · intro node
    rw [Runs.along_iff_forall]
    exact forall₂_congr fun before event => imp_congr_right fun _ => leftClean_iff node before event
  · intro halong node before event hpart
    obtain ⟨after, rfl⟩ := hpart
    rw [List.append_assoc, Runs.along_append] at halong
    rw [leftClean_iff]
    cases hskips : skipsCheck node (watched node before) event with
    | false => rfl
    | true =>
      unfold skipsCheck at hskips
      split at hskips
      · simp only [Bool.and_eq_true, decide_eq_true_eq, watched_cluster] at hskips
        obtain ⟨⟨⟨rfl, hsuspect⟩, hdraining⟩, -⟩ := hskips
        obtain ⟨state, hstate, hcases⟩ := suspect_kept _ before halong.1 hsuspect
        rw [hdraining] at hstate
        cases hstate
        simp [NodeState.isSuspect] at hcases
      · cases hskips

/-- The gpu under the running lease is quarantined and then drained. -/
def Sample.drained : List Event := Sample.running .exclusive ++ [
  .apply (.setNodeState 2 .quarantined),
  .apply (.setNodeState 2 .draining)]

theorem drained_gpu_scheduled_while_held :
    ¬∀ (node : NodeId) (before : List Event) (event : Event), LeftClean node before event := by
  intro h
  have hskips := (leftClean_iff 2 Sample.drained (.apply (.setNodeState 2 .schedulable))).mp
    (h 2 Sample.drained (.apply (.setNodeState 2 .schedulable)))
  have hskipped : skipsCheck 2 (watched 2 Sample.drained) (.apply (.setNodeState 2 .schedulable)) =
      true := by
    decide +kernel
  rw [hskipped] at hskips
  cases hskips

/-- The gpu is quarantined, its binding is fenced, and it is scheduled again. -/
def Sample.cleared : List Event := Sample.running .exclusive ++ [
  .apply (.quarantineNode 2),
  .apply (.recordBindingFenced 1 1 1),
  .apply (.unquarantineNode 2)]

theorem cleared_gpu_left_clean :
    (∀ before event, before ++ [event] <+: Sample.cleared → LeftClean 2 before event) ∧
      (run Sample.cleared).nodeState 2 = some .schedulable ∧
      LeftClean 1 (Sample.running .exclusive) (.apply (.quarantineNode 2)) := by
  refine ⟨((quarantine_left_clean_iff Sample.cleared).1 2).mpr (by decide +kernel),
    by decide +kernel, (quarantine_left_clean_iff Sample.cleared).2 (by decide +kernel) 1 _ _ ?_⟩
  exact ⟨_, rfl⟩

end Cluster
end Archon.Kernel
