import Archon.Agent.Slots
import Archon.Node.Provider

/-! The agent of a machine: a provider that owns the generations of its endpoints, and an
executor. Execution requests need the control generation and no endpoint. -/
namespace Archon.Agent
open Archon.Kernel Archon.Node Fallible

/-- Every endpoint that the provider has, in the order of its keys. -/
def enumerate (self : ResourceProvider) : List EnumeratedEndpoint :=
  self.endpoints.toList.map fun entry => {
    node := entry.2.node.asU64
    provider := entry.2.provider.asU64
    scope := match entry.1 with
      | .exclusive _ _ => .exclusive
      | .independentShare _ => .independentShare
    binding := entry.2.binding.map fun id => id.asU64
    isOpen := entry.2.isOpen
    acceptedFence := entry.2.acceptedFence
    phase := entry.2.phase }

def generationOf (call : BindingCall) : EndpointGeneration :=
  ⟨call.binding, call.node, call.provider, call.scope, call.session, call.fence, call.epoch⟩

/-- The answer to a binding request that is not refused. -/
def drive (phase : EffectPhase) (generation : EndpointGeneration) :
    EStateM String ResourceProvider AgentResponse :=
  match phase with
  | .prepare => .prepared generation.binding <$> ResourceProvider.prepare generation
  | .activate => (fun _ => .activated generation.binding) <$> ResourceProvider.activate generation
  | .release => (fun _ => .released generation.binding) <$> ResourceProvider.release generation
  | .fence => (fun _ => .fenced generation.binding) <$> ResourceProvider.fence generation

structure LeaseAgent where
  provider : ResourceProvider
  execution : Executor

namespace LeaseAgent

def new (execution : Executor) : LeaseAgent := ⟨.new, execution⟩

def handleBinding (phase : EffectPhase) (call : BindingCall) (self : LeaseAgent) : AgentResponse × LeaseAgent :=
  match drive phase (generationOf call) self.provider with
  | .ok response provider => (response, { self with provider })
  | .error reason provider => (.failed call.binding reason, { self with provider })

def handleStart (os : Answers) (lease session epoch : UInt64) (start : ExecutionStart) (self : LeaseAgent) :
    AgentResponse × LeaseAgent :=
  match ResourceProvider.authorizeExecution session epoch self.provider with
  | .error reason provider => (.executionFailed lease reason, { self with provider })
  | .ok () provider =>
    match Executor.start os ⟨lease⟩ start self.execution with
    | .ok () execution => (.executionStarted lease, ⟨provider, execution⟩)
    | .error reason execution => (.executionFailed lease reason, ⟨provider, execution⟩)

def handleStop (os : Answers) (lease session epoch : UInt64) (self : LeaseAgent) : AgentResponse × LeaseAgent :=
  match ResourceProvider.authorizeExecution session epoch self.provider with
  | .error reason provider => (.executionStopFailed lease reason, { self with provider })
  | .ok () provider =>
    match Executor.stop os ⟨lease⟩ self.execution with
    | .ok _ execution => (.executionStopped lease, ⟨provider, execution⟩)
    | .error reason execution => (.executionStopFailed lease reason, ⟨provider, execution⟩)

def exitCode : WorkStatus → Option Int32
  | .exited code => some code
  | .gone | .running => none

def handleStatus (os : Answers) (lease : UInt64) (self : LeaseAgent) : AgentResponse × LeaseAgent :=
  match Executor.status os ⟨lease⟩ self.execution with
  | .ok status execution =>
    (.running lease (decide (status = .running)) (exitCode status), { self with execution })
  -- looking does not fail
  | .error _ execution => (.running lease false none, { self with execution })

def handle (os : Answers) (request : AgentRequest) (self : LeaseAgent) : AgentResponse × LeaseAgent :=
  match request with
  | .binding phase call => self.handleBinding phase call
  | .startExecution lease session epoch command limits image storage ports graceSecs devices =>
    self.handleStart os lease session epoch ⟨command, limits, image, storage, ports, graceSecs, devices⟩
  | .stopExecution lease session epoch => self.handleStop os lease session epoch
  | .status lease => self.handleStatus os lease
  | .enumerateBindings => (.bindingsEnumerated (enumerate self.provider), self)

end LeaseAgent

/-! What a request leaves of the members. -/

/-- The lease whose program the request starts. -/
def startOf : AgentRequest → Option LeaseId
  | .startExecution lease _ _ _ _ _ _ _ _ _ => some ⟨lease⟩
  | _ => none

/-- The lease whose program the request is about. -/
def memberOf : AgentRequest → Option LeaseId
  | .startExecution lease _ _ _ _ _ _ _ _ _ => some ⟨lease⟩
  | .stopExecution lease _ _ => some ⟨lease⟩
  | .status lease => some ⟨lease⟩
  | _ => none

section Handling
variable {os : Answers} {request : AgentRequest} {self : LeaseAgent}

namespace LeaseAgent

def slot (self : LeaseAgent) (lease : LeaseId) : Slot := self.execution.slot lease

/-- The answers that a request gets may be relied on. -/
def Hears (self : LeaseAgent) (os : Answers) (request : AgentRequest) : Prop :=
  ∀ lease, memberOf request = some lease → os.Honest (self.slot lease)

/-- What a request makes of the members of an agent. -/
structure Serves (agent next : LeaseAgent) (request : AgentRequest) (response : AgentResponse) : Prop where
  accounted : ∀ lease, (next.slot lease).Accounted
  winds : ∀ lease, startOf request ≠ some lease → (agent.slot lease).Winds (next.slot lease)
  stopped : ∀ lease session epoch, request = .stopExecution lease session epoch →
    response = .executionStopped lease → (next.slot ⟨lease⟩).Idle
  exited : ∀ lease code, request = .status lease → response = .running lease false (some code) →
    (next.slot ⟨lease⟩).Idle ∧ ¬(agent.slot ⟨lease⟩).Untracked

/-- A request about no member. -/
theorem serves_still {next : LeaseAgent} {response : AgentResponse} (h : next.execution = self.execution)
    (hslots : ∀ lease, (self.slot lease).Accounted)
    (hstop : ∀ lease session epoch, request = .stopExecution lease session epoch →
      response ≠ .executionStopped lease)
    (hstatus : ∀ lease code, request = .status lease → response ≠ .running lease false (some code)) :
    self.Serves next request response := by
  have hsame : ∀ lease, next.slot lease = self.slot lease := fun lease => by rw [slot, slot, h]
  refine ⟨fun lease => ?_, fun lease _ => ?_, fun lease session epoch hrequest hresponse => ?_,
    fun lease code hrequest hresponse => ?_⟩
  · rw [hsame]
    exact hslots lease
  · rw [hsame]
    exact .refl _
  · exact absurd hresponse (hstop lease session epoch hrequest)
  · exact absurd hresponse (hstatus lease code hrequest)

/-- A request that winds the program of one member down, or leaves it. -/
theorem serves_winding {next : LeaseAgent} {response : AgentResponse} {lease : LeaseId} {left : Slot}
    (hsets : self.execution.Sets next.execution lease left) (hwinds : (self.slot lease).Winds left)
    (hslots : ∀ lease, (self.slot lease).Accounted)
    (hstop : ∀ id session epoch, request = .stopExecution id session epoch → response = .executionStopped id →
      lease = ⟨id⟩ ∧ left.Idle)
    (hstatus : ∀ id code, request = .status id → response = .running id false (some code) →
      lease = ⟨id⟩ ∧ left.Idle ∧ ¬(self.slot lease).Untracked) :
    self.Serves next request response := by
  have hall : ∀ other, (self.slot other).Winds (next.slot other) := fun other => by
    by_cases hother : other = lease
    · subst hother
      rw [slot, slot, hsets.own]
      exact hwinds
    · rw [slot, slot, hsets.other other hother]
      exact .refl _
  refine ⟨fun other => (hall other).accounted (hslots other), fun other _ => hall other,
    fun id session epoch hrequest hresponse => ?_, fun id code hrequest hresponse => ?_⟩
  · obtain ⟨rfl, hidle⟩ := hstop id session epoch hrequest hresponse
    rw [slot, hsets.own]
    exact hidle
  · obtain ⟨rfl, hidle, htracked⟩ := hstatus id code hrequest hresponse
    refine ⟨?_, htracked⟩
    rw [slot, hsets.own]
    exact hidle

theorem handleBinding_serves (phase : EffectPhase) (call : BindingCall)
    (hslots : ∀ lease, (self.slot lease).Accounted) :
    self.Serves (self.handleBinding phase call).2 (.binding phase call) (self.handleBinding phase call).1 := by
  refine serves_still ?_ hslots (by simp) (by simp)
  unfold handleBinding
  split <;> rfl

theorem handleStart_serves {lease session epoch : UInt64} {command : List String} {limits : LeaseLimits}
    {image : String} {storage : List StorageMount} {ports : List PortPublish} {graceSecs : UInt32}
    {devices : List DeviceAccess} (hslots : ∀ lease, (self.slot lease).Accounted)
    (hnone : (self.slot ⟨lease⟩).Untracked) :
    let start : ExecutionStart := ⟨command, limits, image, storage, ports, graceSecs, devices⟩
    self.Serves (self.handleStart os lease session epoch start).2
      (.startExecution lease session epoch command limits image storage ports graceSecs devices)
      (self.handleStart os lease session epoch start).1 := by
  intro start
  unfold handleStart
  cases hcontrol : ResourceProvider.authorizeExecution session epoch self.provider with
  | error reason provider => exact serves_still rfl hslots (by simp) (by simp)
  | ok _ provider =>
    have hleaves := @Executor.start_leaves os ⟨lease⟩ self.execution start (hslots _) hnone
    have hserves : ∀ {execution : Executor} {response : AgentResponse},
        (∃ next, self.execution.Sets execution ⟨lease⟩ next ∧ next.Accounted) →
        self.Serves ⟨provider, execution⟩
          (.startExecution lease session epoch command limits image storage ports graceSecs devices) response := by
      rintro execution response ⟨next, hsets, hnext⟩
      refine ⟨fun other => ?_, fun other hother => ?_, by simp, by simp⟩
      · by_cases hown : other = ⟨lease⟩
        · subst hown
          rw [slot, hsets.own]
          exact hnext
        · rw [slot, hsets.other other hown]
          exact hslots other
      · have hne : other ≠ ⟨lease⟩ := fun heq => hother (by rw [heq]; rfl)
        rw [slot, slot, hsets.other other hne]
        exact .refl _
    dsimp only
    cases hrun : Executor.start os ⟨lease⟩ start self.execution with
    | ok _ execution => exact hserves (hleaves.ok hrun)
    | error reason execution => exact hserves (hleaves.error hrun)

theorem handleStop_serves {lease session epoch : UInt64} (hslots : ∀ lease, (self.slot lease).Accounted)
    (hos : os.Honest (self.slot ⟨lease⟩)) :
    self.Serves (self.handleStop os lease session epoch).2 (.stopExecution lease session epoch)
      (self.handleStop os lease session epoch).1 := by
  unfold handleStop
  cases hcontrol : ResourceProvider.authorizeExecution session epoch self.provider with
  | error reason provider => exact serves_still rfl hslots (by simp) (by simp)
  | ok _ provider =>
    have hleaves := @Executor.stop_leaves os ⟨lease⟩ self.execution (hslots _) hos
    dsimp only
    cases hrun : Executor.stop os ⟨lease⟩ self.execution with
    | ok stopped execution =>
      obtain ⟨next, hsets, hwinds, hidle⟩ := hleaves.ok hrun
      refine serves_winding hsets hwinds hslots (fun id _ _ hrequest _ => ?_) (by simp)
      cases hrequest
      exact ⟨rfl, hidle ⟨stopped, rfl⟩⟩
    | error reason execution =>
      obtain ⟨next, hsets, hwinds, -⟩ := hleaves.error hrun
      exact serves_winding hsets hwinds hslots (by simp) (by simp)

theorem handleStatus_serves {lease : UInt64} (hslots : ∀ lease, (self.slot lease).Accounted)
    (hos : os.Honest (self.slot ⟨lease⟩)) :
    self.Serves (self.handleStatus os lease).2 (.status lease) (self.handleStatus os lease).1 := by
  have hleaves := @Executor.status_leaves os ⟨lease⟩ self.execution (hslots _) hos
  unfold handleStatus
  cases hrun : Executor.status os ⟨lease⟩ self.execution with
  | ok status execution =>
    obtain ⟨next, hsets, hwinds, hexited⟩ := hleaves.ok hrun
    refine serves_winding hsets hwinds hslots (by simp) fun id code hrequest hresponse => ?_
    cases hrequest
    cases status with
    | exited found =>
      obtain ⟨hidle, htracked⟩ := hexited found rfl
      exact ⟨rfl, hidle, htracked⟩
    | gone | running => simp [exitCode] at hresponse
  | error reason execution =>
    obtain ⟨next, hsets, hwinds, -⟩ := hleaves.error hrun
    exact serves_winding hsets hwinds hslots (by simp) (by simp)

/-- A request keeps account of every program if the one it starts, if any, is the first of its lease. -/
theorem handle_serves (hslots : ∀ lease, (self.slot lease).Accounted) (hos : self.Hears os request)
    (hfirst : ∀ lease, startOf request = some lease → (self.slot lease).Untracked) :
    self.Serves (self.handle os request).2 request (self.handle os request).1 := by
  cases request with
  | binding phase call => exact handleBinding_serves phase call hslots
  | startExecution => exact handleStart_serves hslots (hfirst _ rfl)
  | stopExecution => exact handleStop_serves hslots (hos _ rfl)
  | status => exact handleStatus_serves hslots (hos _ rfl)
  | enumerateBindings => exact serves_still rfl hslots (by simp) (by simp)

/-- The answers that there are to a request. -/
inductive Replies : AgentRequest → AgentResponse → Prop where
  | prepared : Replies (.binding .prepare call) (.prepared call.binding claimed)
  | activated : Replies (.binding .activate call) (.activated call.binding)
  | released : Replies (.binding .release call) (.released call.binding)
  | fenced : Replies (.binding .fence call) (.fenced call.binding)
  | failed : Replies (.binding phase call) (.failed call.binding reason)
  | started : Replies (.startExecution lease session epoch command limits image storage ports grace devices)
      (.executionStarted lease)
  | startFailed : Replies (.startExecution lease session epoch command limits image storage ports grace devices)
      (.executionFailed lease reason)
  | stopped : Replies (.stopExecution lease session epoch) (.executionStopped lease)
  | stopFailed : Replies (.stopExecution lease session epoch) (.executionStopFailed lease reason)
  | status : Replies (.status lease) (.running lease running code)
  | enumerated : Replies .enumerateBindings (.bindingsEnumerated endpoints)

theorem Replies.stop {response : AgentResponse} {lease : UInt64} (h : Replies request response)
    (hstopped : response = .executionStopped lease) :
    ∃ session epoch, request = .stopExecution lease session epoch := by
  cases h with
  | stopped =>
    cases hstopped
    exact ⟨_, _, rfl⟩
  | _ => cases hstopped

theorem Replies.asked {response : AgentResponse} {lease : UInt64} {running : Bool} {code : Option Int32}
    (h : Replies request response) (hstatus : response = .running lease running code) :
    request = .status lease := by
  cases h with
  | status =>
    cases hstatus
    rfl
  | _ => cases hstatus

theorem drive_replies {phase : EffectPhase} {call : BindingCall} {response : AgentResponse}
    {provider next : ResourceProvider} (h : drive phase (generationOf call) provider = .ok response next) :
    Replies (.binding phase call) response := by
  unfold drive at h
  cases phase with
  | prepare =>
    obtain ⟨handle, -, rfl⟩ := map_ok.mp h
    exact .prepared
  | activate =>
    obtain ⟨_, -, rfl⟩ := map_ok.mp h
    exact .activated
  | release =>
    obtain ⟨_, -, rfl⟩ := map_ok.mp h
    exact .released
  | fence =>
    obtain ⟨_, -, rfl⟩ := map_ok.mp h
    exact .fenced

theorem handle_replies : Replies request (self.handle os request).1 := by
  cases request with
  | binding phase call =>
    simp only [handle, handleBinding]
    split
    · rename_i hdrive
      exact drive_replies hdrive
    · exact .failed
  | startExecution =>
    simp only [handle, handleStart]
    split
    · exact .startFailed
    · split
      · exact .started
      · exact .startFailed
  | stopExecution =>
    simp only [handle, handleStop]
    split
    · exact .stopFailed
    · split
      · exact .stopped
      · exact .stopFailed
  | status =>
    simp only [handle, handleStatus]
    split <;> exact .status
  | enumerateBindings => exact .enumerated

end LeaseAgent
end Handling
end Archon.Agent
