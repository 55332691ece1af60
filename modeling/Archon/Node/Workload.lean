import Archon.Kernel.Admit

/-! Workload intent above the kernel: what a lease is to execute, and the groups
of members a controller maintains. None of it takes part in resource authority. -/
namespace Archon.Node
open Archon.Kernel Fallible

structure StorageMount where
  hostPath : String
  mountPath : String
  deriving DecidableEq

/-- A published container port; without a host port the host chooses. -/
structure PortPublish where
  containerPort : UInt16
  hostPort : Option UInt16
  deriving DecidableEq

structure ExecutionSpec where
  command : List String
  image : Option String
  storage : List StorageMount
  ports : List PortPublish
  graceSecs : UInt32
  deriving DecidableEq

def ExecutionSpec.default : ExecutionSpec := ⟨[], none, [], [], 0⟩

def ExecutionSpec.hasProgram (self : ExecutionSpec) : Bool :=
  self.command ≠ [] || self.image.isSome

structure WorkloadSpec where
  resources : Request
  execution : ExecutionSpec
  keepAlive : Bool
  deriving DecidableEq

def WorkloadSpec.resourceOnly (resources : Request) : WorkloadSpec :=
  ⟨resources, .default, false⟩

/-- The same workload under another request id. -/
def WorkloadSpec.withId (self : WorkloadSpec) (id : RequestId) : WorkloadSpec :=
  { self with resources := { self.resources with id } }

inductive Cardinality where
  | fixed (count : Nat)
  | elastic (min target max : Nat)
  | perMachine
  deriving DecidableEq

namespace Cardinality

def desiredCount (self : Cardinality) (machines : Nat) : Nat :=
  match self with
  | .fixed count => count
  | .elastic _ target _ => target
  | .perMachine => machines

def validate : Cardinality → Except String Unit
  | .fixed count => refuseIf (count = 0) "fixed cardinality must be positive"
  | .elastic min target max => refuseIf (min = 0 ∨ target < min ∨ max < target)
      "elastic cardinality needs 1 <= min <= target <= max"
  | .perMachine => .ok ()

end Cardinality

structure ServiceGroup where
  id : String
  owner : OwnerId
  cardinality : Cardinality
  template : WorkloadSpec
  deriving DecidableEq

/-- One member of the group. The group alone keeps it alive. -/
def ServiceGroup.member (self : ServiceGroup) (id : RequestId) : WorkloadSpec :=
  { self.template.withId id with keepAlive := false }

end Archon.Node
