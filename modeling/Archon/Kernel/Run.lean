import Archon.Lib.Runs
import Archon.Kernel.Atomicity
import Archon.Kernel.Entries

/-! Runs of the cluster: commands mixed with clock, agreement and epoch changes,
from the empty cluster. A refused command leaves whatever it left behind; that
this is nothing is the atomicity result, so a run is a sequence of steps. -/
namespace Archon.Kernel

inductive Event where
  | apply (command : Command)
  | setNow (now : UInt64)
  | setAgreement (agreed : Bool)
  | advanceEpoch
  deriving DecidableEq

namespace Cluster
open Fallible

/-- The cluster after one event. -/
def take (c : Cluster) : Event → Cluster
  | .apply command =>
    match apply command c with
    | .ok _ next => next
    | .error _ left => left
  | .setNow now => c.setNow now
  | .setAgreement agreed => c.setAgreement agreed
  | .advanceEpoch => c.advanceEpoch

/-- The cluster after a sequence of events. -/
def run (events : List Event) : Cluster := Runs.run take new events

/-- Whether the cluster accepts a command. -/
def accepts (c : Cluster) (command : Command) : Bool :=
  match dispatch command c with
  | .ok _ _ => true
  | .error _ _ => false

theorem accepts_iff {c : Cluster} {command : Command} :
    c.accepts command ↔ ∃ c', Step c command c' := by
  unfold accepts
  constructor
  · split
    · rename_i hok
      exact fun _ => ⟨_, step_of_dispatch hok⟩
    · simp
  · rintro ⟨c', hstep⟩
    obtain ⟨effects, hok⟩ := accepted_of_step hstep
    simp [hok]

theorem apply_ok_iff {c next : Cluster} {command : Command} :
    (∃ effects, apply command c = .ok effects next) ↔
      ∃ c', Step c command c' ∧ next = { c' with log := c'.log ++ [command] } := by
  simp only [apply, bind_ok, modify_ok, pure_ok]
  constructor
  · rintro ⟨effects, _, c', hdispatch, _, _, rfl, -, rfl⟩
    exact ⟨c', step_of_dispatch hdispatch, rfl⟩
  · rintro ⟨c', hstep, rfl⟩
    obtain ⟨effects, hdispatch⟩ := accepted_of_step hstep
    exact ⟨effects, effects, c', hdispatch, (), _, rfl, rfl, rfl⟩

/-- What one event does: a step and its log entry, or a change that touches
none of the tables. -/
inductive Taken (c : Cluster) : Event → Cluster → Prop where
  | accepted {c' : Cluster} (hstep : Step c command c') :
      Taken c (.apply command) { c' with log := c.log ++ [command] }
  | refused (h : c.accepts command = false) : Taken c (.apply command) c
  | clock (time : UInt64) : Taken c (.setNow time) { c with now := time }
  | agreement (value : Bool) : Taken c (.setAgreement value) { c with agreed := value }
  | epoch : Taken c .advanceEpoch { c with epoch := saturatingAdd c.epoch 1 }

theorem Step.log {c c' : Cluster} {command : Command} (h : Step c command c') : c'.log = c.log := by
  cases h <;> rfl

theorem take_taken {c : Cluster} (h : WellFormed c) (event : Event) :
    Taken c event (c.take event) := by
  cases event with
  | apply command =>
    cases hdispatch : dispatch command c with
    | ok effects next =>
      have happly : apply command c = .ok effects { next with log := next.log ++ [command] } := by
        simp [apply, hdispatch]
      have hstep := step_of_dispatch hdispatch
      rw [hstep.log] at happly
      simp only [take, happly]
      exact .accepted hstep
    | error e left =>
      have happly : apply command c = .error e left := by
        change EStateM.bind (dispatch command) _ c = _
        simp [EStateM.bind, hdispatch]
      obtain rfl := apply_atomic h command e left happly
      simp only [take, happly]
      exact .refused (by simp [accepts, hdispatch])
  | setNow now => exact .clock now
  | setAgreement agreed => exact .agreement agreed
  | advanceEpoch => exact .epoch

/-! Rules for runs. -/

@[simp] theorem run_concat (events : List Event) (event : Event) :
    run (events ++ [event]) = (run events).take event :=
  Runs.run_concat events event

/-- A property of the tables is not affected by the rest of the cluster. -/
def OfTables (inv : Cluster → Prop) : Prop :=
  ∀ c epoch now agreed log, inv c → inv { c with epoch, now, agreed, log }

theorem Taken.preserves {inv : Cluster → Prop} (htables : OfTables inv) {c c' : Cluster}
    {event : Event} (h : Taken c event c') (hc : inv c)
    (hstep : ∀ command next, event = .apply command → Step c command next → inv next) : inv c' := by
  cases h with
  | accepted h => exact htables _ _ _ _ _ (hstep _ _ rfl h)
  | refused => exact hc
  | clock => exact htables _ _ _ _ _ hc
  | agreement => exact htables _ _ _ _ _ hc
  | epoch => exact htables _ _ _ _ _ hc

/-- When a bad event is exactly an accepted command that breaks the property,
an event keeps the property exactly when it is not bad. -/
theorem Taken.keeps_iff {inv : Cluster → Prop} (htables : OfTables inv) {c c' : Cluster}
    {event : Event} {bad : Prop} (h : Taken c event c') (hc : inv c)
    (hkeeps : ∀ command next, event = .apply command → Step c command next → ¬bad → inv next)
    (hbreaks : bad → ∃ command next, event = .apply command ∧ Step c command next ∧ ¬inv next) :
    inv c' ↔ ¬bad := by
  constructor
  · intro hafter hbad
    obtain ⟨command, next, rfl, hstep, hbroken⟩ := hbreaks hbad
    cases h with
    | accepted hstep' =>
      obtain rfl := hstep.unique hstep'
      exact hbroken (htables { next with log := c.log ++ [command] } next.epoch next.now next.agreed
        next.log hafter)
    | refused hrefused =>
      rw [accepts_iff.mpr ⟨next, hstep⟩] at hrefused
      cases hrefused
  · intro hgood
    exact h.preserves htables hc fun command next he hs => hkeeps command next he hs hgood

theorem wellFormed_run (events : List Event) : WellFormed (run events) := by
  refine Runs.invariant wellFormed_new (fun events event ih => ?_) events
  rw [Runs.run_concat]
  exact (take_taken ih event).preserves (fun _ _ _ _ _ h => ⟨h.leases, h.bindings⟩) ih
    fun _ _ _ hstep => wellFormed_step ih hstep

theorem taken_run (events : List Event) (event : Event) :
    Taken (run events) event (run (events ++ [event])) := by
  rw [run_concat]
  exact take_taken (wellFormed_run events) event

theorem run_of_step {before : List Event} {command : Command} {c' : Cluster}
    (hstep : Step (run before) command c') :
    run (before ++ [.apply command]) = { c' with log := (run before).log ++ [command] } := by
  have htaken := taken_run before (.apply command)
  generalize run (before ++ [.apply command]) = reached at htaken ⊢
  cases htaken with
  | accepted hstep' => rw [hstep.unique hstep']
  | refused hrefused =>
    rw [accepts_iff.mpr ⟨c', hstep⟩] at hrefused
    cases hrefused

/-- A property of the tables that steps preserve holds in every run. -/
theorem run_invariant {inv : Cluster → Prop} (hnew : inv new) (htables : OfTables inv)
    (hstep : ∀ before command c', Step (run before) command c' → inv (run before) → inv c')
    (events : List Event) : inv (run events) :=
  Runs.invariant hnew (fun before event ih => (taken_run before event).preserves htables ih
    fun command next _ h => hstep before command next h ih) events

/-- What every step does to a fixed earlier cluster, the rest of the run does. -/
theorem run_related {rel : Cluster → Cluster → Prop} (hrefl : ∀ c, rel c c)
    (htables : ∀ c, OfTables (rel c))
    (hstep : ∀ c before command c', Step (run before) command c' → rel c (run before) → rel c c')
    (before after : List Event) : rel (run before) (run (before ++ after)) :=
  Runs.related hrefl (fun c events event ih => (taken_run events event).preserves (htables c) ih
    fun command next _ h => hstep c events command next h ih) before after

/-- The same two rules for runs whose events are good where they happen. -/
theorem run_invariant_along {good : Cluster → Event → Prop} {inv : Cluster → Prop} (hnew : inv new)
    (htables : OfTables inv)
    (hstep : ∀ before command c', good (run before) (.apply command) →
      Step (run before) command c' → inv (run before) → inv c')
    (events : List Event) (halong : Runs.Along take good new events) : inv (run events) :=
  Runs.invariant_along hnew (fun before event _ hgood ih =>
    (taken_run before event).preserves htables ih fun command next hevent h =>
      hstep before command next (hevent ▸ hgood) h ih) events halong

theorem run_related_along {good : Cluster → Event → Prop} {rel : Cluster → Cluster → Prop}
    (hrefl : ∀ c, rel c c) (htables : ∀ c, OfTables (rel c))
    (hstep : ∀ c before command c', good (run before) (.apply command) →
      Step (run before) command c' → rel c (run before) → rel c c')
    (before after : List Event) (halong : Runs.Along take good (run before) after) :
    rel (run before) (run (before ++ after)) := by
  have hrun : ∀ events, run (before ++ events) = Runs.run take (run before) events :=
    fun events => Runs.run_append before events
  rw [hrun]
  refine @Runs.invariant_along _ _ take (run before) good (rel (run before)) (hrefl _)
    (fun events event _ hgood ih => ?_) after halong
  rw [← hrun] at ih hgood ⊢
  rw [← List.append_assoc]
  exact (taken_run (before ++ events) event).preserves (htables _) ih fun command next hevent h =>
    hstep _ _ command next (hevent ▸ hgood) h ih

/-- A refused command changes nothing. -/
theorem refused_leaves_cluster (events : List Event) (command : Command) (e : Error)
    (left : Cluster) (h : apply command (run events) = .error e left) : left = run events :=
  apply_atomic (wellFormed_run events) command e left h

theorem apply_of_refused {c : Cluster} {command : Command} (h : c.accepts command = false) :
    ∃ e left, apply command c = .error e left := by
  unfold accepts at h
  cases hdispatch : dispatch command c with
  | ok effects next => simp [hdispatch] at h
  | error e left =>
    refine ⟨e, left, ?_⟩
    change EStateM.bind (dispatch command) _ c = _
    simp [EStateM.bind, hdispatch]

/-! A host with one gpu of two units, its agent, and a lease that runs there. -/

namespace Sample

def units (amount : UInt64) : Quantity := (∅ : Quantity).insert .count amount

def allocation (amount : UInt64) : Allocation where
  claims := [⟨2, units amount⟩]
  graphRevision := 1
  explanation := ⟨"", []⟩

/-- The machine is node 1, the gpu in it is node 2. -/
def host (scope : BindingScope) : List Event := [
  .apply (.applyResourceFacts [⟨1, .machine, ∅, ∅⟩, ⟨2, .gpu, ∅, units 2⟩] [⟨1, 2, .contains, ∅⟩]
    [⟨2, .count, some ⟨.enforce, scope⟩⟩]),
  .apply (.setAgentSession 1 1)]

def openLease (id : LeaseId) (amount : UInt64) (parent : Option LeaseId) : Event :=
  .apply (.openLease id 1 (allocation amount) parent 100 50 0)

/-- Lease 1 holds both units through binding 1, and is active. -/
def running (scope : BindingScope) : List Event := host scope ++ [
  openLease 1 2 none,
  .apply (.openBinding 1 1 2 .enforce scope),
  .apply (.recordBindingPrepared 1 1 7 1),
  .apply (.activateLease 1),
  .apply (.activateBinding 1)]

end Sample

/-- The gpu is fully claimed, so one more unit is refused and nothing moves. -/
theorem full_gpu_refuses : ∃ e left,
    apply (.openLease 2 1 (Sample.allocation 1) none 100 50 0) (run (Sample.running .exclusive)) =
      .error e left ∧ left = run (Sample.running .exclusive) := by
  obtain ⟨e, left, h⟩ := apply_of_refused
    (show (run (Sample.running .exclusive)).accepts
      (.openLease 2 1 (Sample.allocation 1) none 100 50 0) = false by decide +kernel)
  exact ⟨e, left, h, refused_leaves_cluster _ _ e left h⟩

end Cluster
end Archon.Kernel
