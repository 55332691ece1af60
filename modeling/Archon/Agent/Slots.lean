import Archon.Agent.Executor
import Archon.Lib.Leaving

/-! What the executor has of one lease. A request changes the slot of its own lease only, and
an acknowledged stop leaves nothing running there. -/
namespace Archon.Agent
open Archon.Kernel Archon.Node Fallible

/-- What is tracked of a lease, and what runs of it. -/
structure Slot where
  child : Option TrackedChild
  grouped : Bool
  container : Option String
  process : Bool
  contained : Bool
  deriving DecidableEq

namespace Slot

/-- Nothing of the lease runs. -/
def Idle (slot : Slot) : Prop := slot.process = false ∧ slot.contained = false

/-- Nothing is tracked of the lease. -/
def Untracked (slot : Slot) : Prop := slot.child = none ∧ slot.grouped = false ∧ slot.container = none

/-- What runs is tracked, as one kind of program and as it was started. -/
structure Accounted (slot : Slot) : Prop where
  tracked : slot.process → slot.child ≠ none
  named : slot.contained → slot.container ≠ none
  alone : slot.container ≠ none → slot.process = false
  ungrouped : slot.child = some .standard → slot.grouped = false
  grouped : slot.child = some .cgroup → slot.grouped

theorem Accounted.process_of_absent {slot : Slot} (h : slot.Accounted) (hnone : slot.child = none) :
    slot.process = false := by
  cases hprocess : slot.process with
  | false => rfl
  | true => exact absurd hnone (h.tracked hprocess)

theorem Accounted.contained_of_absent {slot : Slot} (h : slot.Accounted) (hnone : slot.container = none) :
    slot.contained = false := by
  cases hcontained : slot.contained with
  | false => rfl
  | true => exact absurd hnone (h.named hcontained)

theorem Accounted.standard {slot : Slot} (h : slot.Accounted) (hchild : slot.child ≠ none)
    (hgroup : slot.grouped = false) : slot.child = some .standard := by
  cases hkind : slot.child with
  | none => exact absurd hkind hchild
  | some kind =>
    cases kind with
    | standard => rfl
    | cgroup =>
      have hgrouped := h.grouped hkind
      rw [hgroup] at hgrouped
      cases hgrouped

end Slot

namespace Executor

def slot (self : Executor) (lease : LeaseId) : Slot where
  child := self.process.children[lease]?
  grouped := lease ∈ self.process.groups
  container := self.containers.containers[lease]?
  process := lease ∈ self.workloads.processes
  contained := lease ∈ self.workloads.containers

end Executor

/-- What the answers may be relied on for: a child is reported finished only when it is, a container
that runs is not reported otherwise, and a child on its own can be polled and killed. -/
structure Answers.Honest (os : Answers) (slot : Slot) : Prop where
  finished : ∀ code, os.tryWait = .ok (some code) → slot.process = false
  inspected : slot.contained → os.inspectRunning ≠ .ok false
  polled : slot.child = some .standard → ∀ err, os.tryWait ≠ .error err
  killed : slot.child = some .standard → ∀ err, os.kill ≠ .error err

section Slots
variable {os : Answers} {lease : LeaseId} {m : Executor}

open Executor

/-- The slots of all other leases stay, that of the lease becomes `next`. -/
structure Executor.Sets (m m' : Executor) (lease : LeaseId) (next : Slot) : Prop where
  own : m'.slot lease = next
  other : ∀ other, other ≠ lease → m'.slot other = m.slot other

theorem Executor.Sets.refl : m.Sets m lease (m.slot lease) := ⟨rfl, fun _ _ => rfl⟩

/-- What a request about a member makes of its slot. -/
structure Slot.Winds (slot next : Slot) : Prop where
  accounted : slot.Accounted → next.Accounted
  untracked : slot.Untracked → next.Untracked
  process : slot.process = false → next.process = false
  contained : slot.contained = false → next.contained = false

theorem Slot.Winds.refl (slot : Slot) : slot.Winds slot := ⟨id, id, id, id⟩

theorem Slot.Winds.idle {slot next : Slot} (h : slot.Winds next) (hidle : slot.Idle) : next.Idle :=
  ⟨h.process hidle.1, h.contained hidle.2⟩

theorem Slot.Winds.gone {slot : Slot} {grouped : Bool} (h : grouped → slot.grouped) :
    slot.Winds { slot with child := none, process := false, grouped } := by
  constructor
  · intro hslot
    constructor
    · simp
    · exact hslot.named
    · simp
    · simp
    · simp
  · rintro ⟨-, hgrouped, hcontainer⟩
    refine ⟨rfl, ?_, hcontainer⟩
    dsimp only
    cases grouped with
    | false => rfl
    | true => exact absurd (h rfl) (by simp [hgrouped])
  · exact fun _ => rfl
  · exact id

theorem Slot.Winds.removed {slot : Slot} {container : Option String}
    (h : container = none ∨ container = slot.container) :
    slot.Winds { slot with container, contained := false } := by
  constructor
  · intro hslot
    refine ⟨hslot.tracked, by simp, fun hcontainer => ?_, hslot.ungrouped, hslot.grouped⟩
    rcases h with rfl | rfl
    · exact absurd rfl hcontainer
    · exact hslot.alone hcontainer
  · rintro ⟨hchild, hgrouped, hcontainer⟩
    refine ⟨hchild, hgrouped, ?_⟩
    rcases h with rfl | rfl
    · rfl
    · exact hcontainer
  · exact id
  · exact fun _ => rfl

theorem Slot.Winds.ended {slot next : Slot} (h : next = { slot with process := false, contained := false }) :
    slot.Winds next := by
  subst h
  constructor
  · exact fun hslot => ⟨by simp, by simp, fun _ => rfl, hslot.ungrouped, hslot.grouped⟩
  · exact id
  · exact fun _ => rfl
  · exact fun _ => rfl

theorem erase_absent (h : lease ∉ m.process.children) :
    ({ m with process := { m.process with children := m.process.children.erase lease } } : Executor) = m := by
  have hnone : m.process.children[lease]? = none := by
    simpa [OrdMap.mem_iff, Option.eq_none_iff_forall_ne_some] using h
  rw [OrdMap.erase_eq_self hnone]

theorem child_none : (m.slot lease).child = none ↔ lease ∉ m.process.children := by
  simp [slot, OrdMap.mem_iff, Option.eq_none_iff_forall_ne_some]

theorem container_none : (m.slot lease).container = none ↔ lease ∉ m.containers.containers := by
  simp [slot, OrdMap.mem_iff, Option.eq_none_iff_forall_ne_some]

theorem sets_eraseChild : m.Sets
    { m with process := { m.process with children := m.process.children.erase lease } } lease
    { m.slot lease with child := none } := by
  refine ⟨by simp [slot], fun other hne => ?_⟩
  simp [slot, OrdMap.get_erase, Ne.symm hne]

theorem context_ok {α : Type} {text : String} {result : Except String α} {a : α} :
    context text result = .ok a ↔ result = .ok a := by
  cases result with
  | ok b => exact Iff.rfl
  | error e => simp [context, Except.mapError]

theorem context_error {α : Type} {text err : String} {result : Except String α}
    (h : context text result = .error err) : ∃ e, result = .error e := by
  cases result with
  | ok b => cases h
  | error e => exact ⟨e, rfl⟩

/-! Native programs. -/

namespace ProcessRuntime

theorem reap_leaves : Leaves m (reap os lease) fun _ m' =>
    m' = { m with process := { m.process with children := m.process.children.erase lease } } := by
  unfold reap
  simp only [leaves_get_bind, leaves_ite, leaves_pure, leaves_attempt_bind, updateProcess, leaves_modify_bind,
    implies_true, and_true]
  exact fun habsent => (erase_absent habsent).symm

theorem terminateGroup_leaves : Leaves m (terminateGroup os lease) fun result m' => ∃ next,
    m.Sets m' lease next ∧ (m.slot lease).Winds next ∧ ((∃ killed, result = .ok killed) → next.process = false) := by
  unfold terminateGroup
  simp only [leaves_attempt_bind, updateWorkloads, updateProcess, leaves_modify_bind]
  refine ⟨fun _ _ => ?_, fun e _ => ⟨_, .refl, .refl _, fun hok => by simp at hok⟩⟩
  refine leaves_bind reap_leaves (fun killed t ht => ?_) fun e t ht => ?_
  · subst ht
    simp only [leaves_modify_bind, leaves_pure]
    refine ⟨{ m.slot lease with child := none, process := false, grouped := false }, ⟨?_, ?_⟩,
      .gone (by simp), fun _ => rfl⟩
    · simp [slot]
    · intro other hne
      simp [slot, OrdMap.get_erase, hne, Ne.symm hne]
  · subst ht
    refine ⟨{ m.slot lease with child := none, process := false }, ⟨?_, ?_⟩, .gone id, fun _ => rfl⟩
    · simp [slot]
    · intro other hne
      simp [slot, OrdMap.get_erase, hne, Ne.symm hne]

/-- A child on its own can be polled and killed, so it is gone when its handle is. -/
theorem terminateChild_leaves (hslot : (m.slot lease).Accounted) (hgroup : (m.slot lease).grouped = false)
    (hos : os.Honest (m.slot lease)) : Leaves m (terminateChild os lease) fun result m' => ∃ next,
      m.Sets m' lease next ∧ (m.slot lease).Winds next ∧
        ((∃ killed, result = .ok killed) → next.process = false) := by
  unfold terminateChild
  simp only [leaves_get_bind, leaves_ite, leaves_pure, leaves_attempt_bind, updateProcess, updateWorkloads,
    leaves_modify_bind]
  refine ⟨fun habsent => ?_, fun hpresent => ?_⟩
  · exact ⟨_, .refl, .refl _, fun _ => hslot.process_of_absent (child_none.mpr habsent)⟩
  have hstandard := hslot.standard (mt child_none.mp hpresent) hgroup
  refine ⟨fun code hcode => ?_, fun e he => ?_⟩
  · rw [context_ok] at hcode
    split
    · have hprocess := hos.finished _ hcode
      refine ⟨{ m.slot lease with child := none, process := false }, ?_, .gone id, fun _ => rfl⟩
      rw [← hprocess]
      exact sets_eraseChild
    · simp only [leaves_attempt_bind, leaves_modify_bind, leaves_pure]
      have hgone : m.Sets
          { m with process := { m.process with children := m.process.children.erase lease }
                   workloads := { m.workloads with processes := m.workloads.processes.erase lease } } lease
          { m.slot lease with child := none, process := false } := by
        refine ⟨by simp [slot], fun other hne => ?_⟩
        simp [slot, OrdMap.get_erase, hne, Ne.symm hne]
      refine ⟨fun _ _ => ⟨fun _ _ => ?_, fun _ _ => ?_⟩, fun e he => ?_⟩
      · exact ⟨_, hgone, .gone id, fun _ => rfl⟩
      · exact ⟨_, hgone, .gone id, fun _ => rfl⟩
      · obtain ⟨err, herr⟩ := context_error he
        exact absurd herr (hos.killed hstandard err)
  · obtain ⟨err, herr⟩ := context_error he
    exact absurd herr (hos.polled hstandard err)

theorem terminate_leaves (hslot : (m.slot lease).Accounted) (hos : os.Honest (m.slot lease)) :
    Leaves m (terminate os lease) fun result m' => ∃ next, m.Sets m' lease next ∧ (m.slot lease).Winds next ∧
      ((∃ killed, result = .ok killed) → next.process = false) := by
  unfold terminate
  simp only [leaves_get_bind, leaves_ite]
  exact ⟨fun _ => terminateGroup_leaves, fun hgroup => terminateChild_leaves hslot (by simpa [slot] using hgroup) hos⟩

theorem status_leaves (hos : os.Honest (m.slot lease)) : Leaves m (status os lease) fun result m' => ∃ next,
    m.Sets m' lease next ∧ (m.slot lease).Winds next ∧
      ∀ code, result = .ok (.exited code) → next.process = false ∧ (m.slot lease).child ≠ none := by
  unfold status
  simp only [leaves_get_bind, leaves_ite, leaves_pure]
  refine ⟨fun _ => ⟨_, .refl, .refl _, fun code hcode => by simp at hcode⟩, fun hpresent => ?_⟩
  split
  · rename_i code hcode
    have hprocess := hos.finished _ hcode
    simp only [updateProcess, leaves_modify_bind, leaves_pure]
    refine ⟨{ m.slot lease with child := none, process := false }, ?_, .gone id,
      fun _ _ => ⟨rfl, mt child_none.mp hpresent⟩⟩
    rw [← hprocess]
    exact sets_eraseChild
  · exact ⟨_, .refl, .refl _, fun code hcode => by simp at hcode⟩
  · exact ⟨_, .refl, .refl _, fun code hcode => by simp at hcode⟩

theorem spawnInGroup_leaves (program : String) (devices : List DeviceAccess)
    (hslot : (m.slot lease).Accounted) (hnone : (m.slot lease).Untracked) :
    Leaves m (spawnInGroup os lease program devices) fun _ m' => ∃ next, m.Sets m' lease next ∧ next.Accounted := by
  have hstarted : ∃ next, m.Sets
      { m with process := { m.process with
                 groups := m.process.groups.insert lease (), children := m.process.children.insert lease .cgroup }
               workloads := { m.workloads with processes := insert lease m.workloads.processes } } lease next ∧
      next.Accounted := by
    refine ⟨{ m.slot lease with child := some .cgroup, grouped := true, process := true }, ⟨?_, ?_⟩, ?_⟩
    · simp [slot]
    · intro other hne
      simp [slot, OrdMap.get_insert, hne, Ne.symm hne]
    · exact ⟨by simp, hslot.named, fun h => absurd hnone.2.2 h, by simp, by simp⟩
  unfold spawnInGroup
  simp only [leaves_attempt_bind, leaves_ite, updateProcess, updateWorkloads, leaves_modify_bind, leaves_modify]
  refine ⟨fun _ _ => ⟨fun _ => ⟨fun _ _ => ⟨fun _ _ => hstarted, ?_⟩, ?_⟩, fun _ => ⟨fun _ _ => hstarted, ?_⟩⟩, ?_⟩
  all_goals exact fun _ _ => ⟨_, .refl, hslot⟩

theorem spawnAlone_leaves (program : String) (hslot : (m.slot lease).Accounted) (hnone : (m.slot lease).Untracked) :
    Leaves m (spawnAlone os lease program) fun _ m' => ∃ next, m.Sets m' lease next ∧ next.Accounted := by
  unfold spawnAlone
  simp only [leaves_attempt_bind, updateProcess, updateWorkloads, leaves_modify_bind, leaves_modify]
  refine ⟨fun _ _ => ⟨{ m.slot lease with child := some .standard, process := true }, ⟨?_, ?_⟩, ?_⟩,
    fun _ _ => ⟨_, .refl, hslot⟩⟩
  · simp [slot]
  · intro other hne
    simp [slot, OrdMap.get_insert, hne, Ne.symm hne]
  · exact ⟨by simp, hslot.named, fun h => absurd hnone.2.2 h, fun _ => hnone.2.1, by simp⟩

theorem activate_leaves (command : List String) (limits : LeaseLimits) (devices : List DeviceAccess)
    (hslot : (m.slot lease).Accounted) (hnone : (m.slot lease).Untracked) :
    Leaves m (activate os lease command limits devices) fun _ m' => ∃ next, m.Sets m' lease next ∧ next.Accounted := by
  unfold activate
  simp only [leaves_get_bind, leaves_ite, leaves_pure]
  refine ⟨fun _ => ⟨_, .refl, hslot⟩, fun _ => ?_⟩
  split
  · exact ⟨_, .refl, hslot⟩
  · rename_i program arguments
    simp only [leaves_ite, leaves_throw_bind, leaves_attempt_bind]
    refine ⟨fun _ => ⟨_, .refl, hslot⟩, fun _ => ⟨fun _ _ => ⟨fun _ => ?_, fun _ => ?_⟩, fun _ _ => ⟨_, .refl, hslot⟩⟩⟩
    · exact spawnInGroup_leaves program devices hslot hnone
    · exact spawnAlone_leaves program hslot hnone

end ProcessRuntime

/-! Containers. -/

namespace ContainerRuntime

theorem terminateWithGrace_leaves {name : String} (hname : (m.slot lease).container = some name) :
    Leaves m (terminateWithGrace os lease) fun result m' => ∃ next, m.Sets m' lease next ∧
      (m.slot lease).Winds next ∧ ((∃ killed, result = .ok killed) → next.contained = false) := by
  have hfound : m.containers.containers[lease]? = some name := hname
  unfold terminateWithGrace
  simp only [leaves_get_bind, hfound, leaves_attempt_bind, updateWorkloads, updateContainers, leaves_modify_bind,
    leaves_pure]
  refine ⟨fun _ _ => ⟨fun _ _ => ?_, fun _ _ => ?_⟩, fun _ _ => ?_⟩
  · refine ⟨{ m.slot lease with container := none, contained := false }, ⟨?_, ?_⟩, .removed (.inl rfl), fun _ => rfl⟩
    · simp [slot]
    · intro other hne
      simp [slot, OrdMap.get_erase, hne, Ne.symm hne]
  · refine ⟨{ m.slot lease with contained := false }, ⟨?_, ?_⟩, .removed (.inr rfl), fun _ => rfl⟩
    · simp [slot]
    · intro other hne
      simp [slot, hne]
  · exact ⟨_, .refl, .refl _, fun hok => by simp at hok⟩

theorem status_leaves (hos : os.Honest (m.slot lease)) : Leaves m (status os lease) fun result m' =>
    m' = m ∧ ∀ code, result = .ok (.exited code) →
      (m.slot lease).contained = false ∧ (m.slot lease).container ≠ none := by
  unfold status
  simp only [leaves_get_bind, leaves_ite, leaves_pure]
  refine ⟨fun _ => ⟨trivial, fun code hcode => by simp at hcode⟩, fun hpresent => ?_⟩
  split
  · exact ⟨rfl, fun code hcode => by simp at hcode⟩
  · rename_i hinspect
    refine ⟨rfl, fun code hcode => ⟨?_, ?_⟩⟩
    · cases hcontained : (m.slot lease).contained with
      | false => rfl
      | true => exact absurd hinspect (hos.inspected hcontained)
    · obtain ⟨name, hname⟩ := OrdMap.mem_iff.mp (not_not.mp hpresent)
      simp [slot, hname]
  · exact ⟨rfl, fun code hcode => by simp at hcode⟩

theorem activate_leaves (hslot : (m.slot lease).Accounted) (hnone : (m.slot lease).Untracked) :
    Leaves m (activate os lease) fun _ m' => ∃ next, m.Sets m' lease next ∧ next.Accounted := by
  unfold activate
  simp only [leaves_get_bind, leaves_ite, leaves_pure, leaves_attempt_bind, updateContainers, updateWorkloads,
    leaves_modify_bind, leaves_modify]
  refine ⟨fun _ => ⟨_, .refl, hslot⟩, fun _ => ⟨fun _ _ => ?_, fun _ _ => ⟨_, .refl, hslot⟩⟩⟩
  refine ⟨{ m.slot lease with container := some (m.containers.name lease), contained := true }, ⟨?_, ?_⟩, ?_⟩
  · simp [slot]
  · intro other hne
    simp [slot, OrdMap.get_insert, hne, Ne.symm hne]
  · exact ⟨hslot.tracked, by simp, fun _ => hslot.process_of_absent hnone.1, hslot.ungrouped, hslot.grouped⟩

end ContainerRuntime

/-! Both kinds. -/

namespace Executor

theorem Sets.graced {m' : Executor} {next : Slot} (h : m.Sets m' lease next) (grace : OrdMap LeaseId UInt32) :
    m.Sets { m' with grace } lease next := ⟨h.own, h.other⟩

theorem start_leaves (start : ExecutionStart) (hslot : (m.slot lease).Accounted) (hnone : (m.slot lease).Untracked) :
    Leaves m (Executor.start os lease start) fun _ m' => ∃ next, m.Sets m' lease next ∧ next.Accounted := by
  unfold Executor.start
  simp only [leaves_ite, leaves_throw_bind]
  refine ⟨fun _ => ⟨fun _ => ⟨_, .refl, hslot⟩, fun _ => ?_⟩, fun _ => ?_⟩
  · refine leaves_bind (ProcessRuntime.activate_leaves _ _ _ hslot hnone) (fun _ t h => ?_) fun _ _ h => h
    obtain ⟨next, hsets, hnext⟩ := h
    exact ⟨next, hsets.graced _, hnext⟩
  · refine leaves_bind (ContainerRuntime.activate_leaves hslot hnone) (fun _ t h => ?_) fun _ _ h => h
    obtain ⟨next, hsets, hnext⟩ := h
    exact ⟨next, hsets.graced _, hnext⟩

theorem status_leaves (hslot : (m.slot lease).Accounted) (hos : os.Honest (m.slot lease)) :
    Leaves m (Executor.status os lease) fun result m' => ∃ next, m.Sets m' lease next ∧ (m.slot lease).Winds next ∧
      ∀ code, result = .ok (.exited code) → next.Idle ∧ ¬(m.slot lease).Untracked := by
  unfold Executor.status
  simp only [leaves_get_bind, leaves_ite]
  refine ⟨fun _ => ?_, fun hcontainer => ?_⟩
  · refine (ContainerRuntime.status_leaves hos).mono fun result m' h => ?_
    obtain ⟨rfl, hexited⟩ := h
    refine ⟨_, .refl, .refl _, fun code hcode => ?_⟩
    obtain ⟨hcontained, hpresent⟩ := hexited code hcode
    exact ⟨⟨hslot.alone hpresent, hcontained⟩, fun hnone => hpresent hnone.2.2⟩
  · refine (ProcessRuntime.status_leaves hos).mono fun result m' h => ?_
    obtain ⟨next, hsets, hwinds, hexited⟩ := h
    refine ⟨next, hsets, hwinds, fun code hcode => ?_⟩
    obtain ⟨hprocess, hpresent⟩ := hexited code hcode
    have hcontained := hslot.contained_of_absent (container_none.mpr hcontainer)
    exact ⟨⟨hprocess, hwinds.contained hcontained⟩, fun hnone => hpresent hnone.1⟩

/-- An acknowledged stop leaves nothing running. -/
theorem stop_leaves (hslot : (m.slot lease).Accounted) (hos : os.Honest (m.slot lease)) :
    Leaves m (Executor.stop os lease) fun result m' => ∃ next, m.Sets m' lease next ∧ (m.slot lease).Winds next ∧
      ((∃ stopped, result = .ok stopped) → next.Idle) := by
  unfold Executor.stop
  simp only [leaves_get_bind, leaves_modify_bind, leaves_ite]
  refine ⟨fun hcontainer => ?_, fun hcontainer => ?_⟩
  · obtain ⟨name, hname⟩ := OrdMap.mem_iff.mp hcontainer
    have halone : (m.slot lease).process = false := hslot.alone (by simp [slot, hname])
    refine Leaves.mono (ContainerRuntime.terminateWithGrace_leaves hname) fun result m' h => ?_
    obtain ⟨next, hsets, hwinds, hstopped⟩ := h
    exact ⟨next, ⟨hsets.own, hsets.other⟩, hwinds, fun hok => ⟨hwinds.process halone, hstopped hok⟩⟩
  · have hcontained := hslot.contained_of_absent (container_none.mpr hcontainer)
    refine Leaves.mono (ProcessRuntime.terminate_leaves hslot hos) fun result m' h => ?_
    obtain ⟨next, hsets, hwinds, hstopped⟩ := h
    exact ⟨next, ⟨hsets.own, hsets.other⟩, hwinds, fun hok => ⟨hstopped hok, hwinds.contained hcontained⟩⟩

end Executor

end Slots
end Archon.Agent
