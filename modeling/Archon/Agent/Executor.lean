import Archon.Node.CpuLists

/-! The executor of an agent. It tracks the programs it started, natively or in containers,
and asks the operating system about them; what really runs stands beside what it tracks. -/
namespace Archon.Agent
open Archon.Kernel Archon.Node Fallible Std

/-- A native program is started on its own or into the group of its lease. -/
inductive TrackedChild where
  | standard | cgroup
  deriving DecidableEq

inductive WorkStatus where
  | gone
  | running
  | exited (code : Int32)
  deriving DecidableEq

structure ProcessRuntime where
  children : OrdMap LeaseId TrackedChild
  groups : OrdSet LeaseId
  cgroupRoot : Option String

/-- `label` sets the containers of one runtime apart from those of all others. -/
structure ContainerRuntime where
  engine : String
  label : String
  containers : OrdMap LeaseId String

/-- The leases whose program really runs. -/
structure Workloads where
  processes : Finset LeaseId
  containers : Finset LeaseId

/-- The supervisor, and the machine it is on. -/
structure Executor where
  process : ProcessRuntime
  containers : ContainerRuntime
  grace : OrdMap LeaseId UInt32
  workloads : Workloads

/-- What the operating system and the container engine answer during one request. A run of the
engine answers with whether it succeeded and with what it wrote. -/
structure Answers where
  logFile : Except String Unit
  createGroup : Except String Unit
  enforceDevices : Except String Unit
  spawn : Except String Unit
  killGroup : Except String Unit
  tryWait : Except String (Option (Option Int32))
  kill : Except String Unit
  wait : Except String Unit
  run : Except String (Bool × String)
  stop : Except String (Bool × String)
  remove : Except String (Bool × String)
  inspectRunning : Except String Bool
  inspectExitCode : Option Int32
  deriving DecidableEq

abbrev ExecutorM := EStateM String Executor

/-- What a member is started with. -/
structure ExecutionStart where
  command : List String
  limits : LeaseLimits
  image : String
  storage : List StorageMount
  ports : List PortPublish
  graceSecs : UInt32
  devices : List DeviceAccess

def limitsIsEmpty (limits : LeaseLimits) : Bool :=
  limits.cpuCount = 0 && limits.memoryBytes = 0 && limits.placement.cpus = [] && limits.placement.mems = []

def context {α : Type} (text : String) (result : Except String α) : Except String α :=
  result.mapError fun err => s!"{text}: {err}"

/-- A run of the engine counts only when it succeeds. -/
def succeeded (command : String) : Except String (Bool × String) → Except String Unit
  | .error err => .error err
  | .ok (true, _) => .ok ()
  | .ok (false, stderr) => .error s!"{command}: {stderr}"

namespace Executor

def new (cgroupRoot : Option String) (engine label : String) : Executor where
  process := ⟨∅, ∅, cgroupRoot⟩
  containers := ⟨engine, label, ∅⟩
  grace := ∅
  workloads := ⟨∅, ∅⟩

def updateProcess (f : ProcessRuntime → ProcessRuntime) : ExecutorM Unit :=
  modify fun self => { self with process := f self.process }

def updateContainers (f : ContainerRuntime → ContainerRuntime) : ExecutorM Unit :=
  modify fun self => { self with containers := f self.containers }

def updateWorkloads (f : Workloads → Workloads) : ExecutorM Unit :=
  modify fun self => { self with workloads := f self.workloads }

end Executor

/-! Native programs. -/

namespace ProcessRuntime
open Executor

/-- Start the program in the group of its lease. -/
def spawnInGroup (os : Answers) (lease : LeaseId) (program : String) (devices : List DeviceAccess) :
    ExecutorM Unit := do
  attempt os.createGroup
  if devices ≠ [] then
    attempt (context s!"device enforcement for lease {lease.asU64}" os.enforceDevices)
  attempt (context s!"spawn {program}" os.spawn)
  updateProcess fun self => { self with
    groups := self.groups.insert lease ()
    children := self.children.insert lease .cgroup }
  updateWorkloads fun self => { self with processes := insert lease self.processes }

def spawnAlone (os : Answers) (lease : LeaseId) (program : String) : ExecutorM Unit := do
  attempt (context s!"spawn {program}" os.spawn)
  updateProcess fun self => { self with children := self.children.insert lease .standard }
  updateWorkloads fun self => { self with processes := insert lease self.processes }

def activate (os : Answers) (lease : LeaseId) (command : List String) (limits : LeaseLimits)
    (devices : List DeviceAccess) : ExecutorM Unit := do
  let self := (← get).process
  if lease ∈ self.children then return
  match command with
  | [] => throw s!"lease {lease.asU64} has no command to execute"
  | program :: _ =>
    if devices ≠ [] ∧ self.cgroupRoot = none then
      throw s!"lease {lease.asU64} has device claims but process device enforcement requires a cgroup v2 root"
    attempt os.logFile
    if self.cgroupRoot.isSome ∧ ¬(limitsIsEmpty limits ∧ devices = []) then
      spawnInGroup os lease program devices
    else
      spawnAlone os lease program

/-- Whether the child was still live is for the caller to know; it is gone from the table either way. -/
def reap (os : Answers) (lease : LeaseId) : ExecutorM Bool := do
  if lease ∉ (← get).process.children then return false
  updateProcess fun self => { self with children := self.children.erase lease }
  attempt (context s!"reap lease {lease.asU64}" os.wait)
  return decide (os.tryWait = .ok none)

/-- The whole group dies at once; a refused kill keeps it for another try. -/
def terminateGroup (os : Answers) (lease : LeaseId) : ExecutorM Bool := do
  attempt os.killGroup
  updateWorkloads fun self => { self with processes := self.processes.erase lease }
  let killed ← reap os lease
  updateProcess fun self => { self with groups := self.groups.erase lease }
  return killed

/-- A child without a group leaves the table before it is polled. -/
def terminateChild (os : Answers) (lease : LeaseId) : ExecutorM Bool := do
  if lease ∉ (← get).process.children then return false
  updateProcess fun self => { self with children := self.children.erase lease }
  match ← attempt (context s!"poll lease {lease.asU64}" os.tryWait) with
  | some _ => return false
  | none =>
    attempt (context s!"kill lease {lease.asU64}" os.kill)
    updateWorkloads fun self => { self with processes := self.processes.erase lease }
    attempt (context s!"reap lease {lease.asU64}" os.wait)
    return true

def terminate (os : Answers) (lease : LeaseId) : ExecutorM Bool := do
  if lease ∈ (← get).process.groups then terminateGroup os lease else terminateChild os lease

/-- Asking politely first changes nothing that is tracked. -/
def terminateWithGrace (os : Answers) (lease : LeaseId) (_graceSecs : UInt32) : ExecutorM Bool :=
  terminate os lease

/-- A finished child is reported once. -/
def status (os : Answers) (lease : LeaseId) : ExecutorM WorkStatus := do
  if lease ∉ (← get).process.children then return .gone
  match os.tryWait with
  | .ok (some code) =>
    updateProcess fun self => { self with children := self.children.erase lease }
    return .exited (code.getD (-1))
  | .ok none => return .running
  | .error _ => return .gone

end ProcessRuntime

/-! Containers. -/

namespace ContainerRuntime
open Executor

def name (self : ContainerRuntime) (lease : LeaseId) : String := s!"archon-{self.label}-lease-{lease.asU64}"

def activate (os : Answers) (lease : LeaseId) : ExecutorM Unit := do
  let self := (← get).containers
  if lease ∈ self.containers then return
  attempt (succeeded s!"{self.engine} run failed" (context s!"run {self.engine}" os.run))
  updateContainers fun self => { self with containers := self.containers.insert lease (self.name lease) }
  updateWorkloads fun self => { self with containers := insert lease self.containers }

/-- The container stays tracked until it is known to be gone. -/
def terminateWithGrace (os : Answers) (lease : LeaseId) : ExecutorM Bool := do
  let self := (← get).containers
  match self.containers[lease]? with
  | none => return false
  | some name =>
    attempt (succeeded s!"{self.engine} stop {name}" (context s!"{self.engine} stop" os.stop))
    updateWorkloads fun self => { self with containers := self.containers.erase lease }
    attempt (succeeded s!"{self.engine} rm {name}" (context s!"{self.engine} rm" os.remove))
    updateContainers fun self => { self with containers := self.containers.erase lease }
    return true

/-- A query that is answered with anything but a running container counts as an exit. -/
def status (os : Answers) (lease : LeaseId) : ExecutorM WorkStatus := do
  if lease ∉ (← get).containers.containers then return .gone
  match os.inspectRunning with
  | .ok true => return .running
  | .ok false => return .exited (os.inspectExitCode.getD (-1))
  | .error _ => return .gone

end ContainerRuntime

/-! Both kinds. -/

namespace Executor

/-- A native program shares the host's files and network. -/
def start (os : Answers) (lease : LeaseId) (start : ExecutionStart) : ExecutorM Unit := do
  if start.image = "" then
    if start.storage ≠ [] ∨ start.ports ≠ [] then
      throw "volumes and published ports need an OCI image"
    ProcessRuntime.activate os lease start.command start.limits start.devices
  else
    ContainerRuntime.activate os lease
  modify fun self => { self with grace := self.grace.insert lease start.graceSecs }

def status (os : Answers) (lease : LeaseId) : ExecutorM WorkStatus := do
  if lease ∈ (← get).containers.containers then ContainerRuntime.status os lease
  else ProcessRuntime.status os lease

/-- The grace is given up with the first try. -/
def stop (os : Answers) (lease : LeaseId) : ExecutorM Bool := do
  let grace := ((← get).grace[lease]?).getD 0
  modify fun self => { self with grace := self.grace.erase lease }
  if lease ∈ (← get).containers.containers then ContainerRuntime.terminateWithGrace os lease
  else ProcessRuntime.terminateWithGrace os lease grace

end Executor
end Archon.Agent
