import Archon.Node.Desired

/-! Runs of the controller: its operations in any order, with answers of agents
arriving at any time. An operation that fails leaves what it wrote and the run
goes on; a panic ends it. -/
namespace Archon.Node
open Archon.Kernel Fallible

inductive Operation where
  | submit (workload : WorkloadSpec) (owner : OwnerId)
  | admitOne (policy : AdmissionPolicy)
  | queueRestarts
  | registerServiceGroup (group : ServiceGroup)
  | scaleServiceGroup (id : String) (target : Nat)
  | removeServiceGroup (id : String)
  | reconcileServiceGroups
  | register (description : MachineDescription) (capabilities : ExecutionCapabilities)
  | revoke (lease : LeaseId)
  | expireDue
  | tick (now : UInt64)
  | markMachineUnhealthy (machine : NodeId)
  | apply (command : Command)
  | drive (arrivals : List (List (Tag × AgentReply)))
  | collectCompletions
  | probeAgents
  /-- An answer arrives, asked for or not. -/
  | post (tag : Tag) (reply : AgentReply)
  /-- The worker of a machine takes no more calls. -/
  | loseAgent (machine : NodeId)
  | takeUnreachable
  | takeRecoveryEvents
  /-- The controller state is set back to the last one the sink was given. -/
  | restoreLast

/-- The state the sink was given last. -/
def lastPersisted (trace : List Entry) : Option ServiceState :=
  (trace.findRev? fun entry => match entry.seen with
    | .persisted _ => true
    | _ => false).map fun entry => entry.service.state

/-- Go on from the state the sink was given last. -/
def Service.restoreLast : ServiceM Unit := fun w =>
  match lastPersisted w.trace with
  | some state => restoreState state w
  | none => .ok () w

namespace Operation
open Service

def program : Operation → ServiceM Unit
  | submit workload owner => Service.submit workload owner
  | admitOne policy => discard (admitOneWithPolicy policy)
  | queueRestarts => discard Service.queueRestarts
  | registerServiceGroup group => Service.registerServiceGroup group
  | scaleServiceGroup id target => discard (Service.scaleServiceGroup id target)
  | removeServiceGroup id => Service.removeServiceGroup id
  | reconcileServiceGroups => discard Service.reconcileServiceGroups
  | register description capabilities =>
    discard (registerAgentWithCapabilities description capabilities)
  | revoke lease => Service.revoke lease
  | expireDue => discard Service.expireDue
  | tick now => discard (Service.tick now)
  | markMachineUnhealthy machine => Service.markMachineUnhealthy machine
  | apply command => Service.apply command
  | drive arrivals => Service.drive arrivals
  | collectCompletions => discard Service.collectCompletions
  | probeAgents => Service.probeAgents
  | post tag reply => update fun s => { s with inbox := s.inbox ++ [(tag, reply)] }
  | loseAgent machine => update fun s => { s with agents := s.agents.modify machine fun _ => false }
  | takeUnreachable => update fun s => { s with unreachable := [] }
  | takeRecoveryEvents => update fun s => { s with recoveryEvents := [] }
  | restoreLast => Service.restoreLast

end Operation

/-- A controller process and whether it still runs. -/
structure Process where
  world : World
  alive : Bool

namespace Process

def take (self : Process) (operation : Operation) : Process :=
  if self.alive then
    match operation.program self.world with
    | .ok _ w => ⟨w, true⟩
    | .error (.err _) w => ⟨w, true⟩
    | .error .panic w => ⟨w, false⟩
  else self

def run (start : Process) (operations : List Operation) : Process := Runs.run take start operations

/-- A controller that starts with a cluster and a controller state. -/
def boot (cluster : Cluster) (state : ServiceState) (durableSink : Bool) : Process :=
  ⟨⟨{ NodeService.new with cluster, state, durableSink }, []⟩, true⟩

def new (durableSink : Bool) : Process := boot .new .new durableSink

theorem take_world (p : Process) (operation : Operation) :
    (p.take operation).world = p.world ∨
      (p.take operation).world = after operation.program p.world := by
  unfold take after
  split
  · right
    cases operation.program p.world with
    | ok a w => rfl
    | error fault w => cases fault <;> rfl
  · exact .inl rfl

end Process
end Archon.Node
