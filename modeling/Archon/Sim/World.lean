import Archon.Lib.Runs
import Archon.Kernel.Cluster
import Archon.Kernel.Endpoint
import Archon.Kernel.Queries

/-! The simulated control protocol: the cluster, its agents, the endpoints they
enforce and the effects in flight between them. Messages are delivered from the
front of the queue, dropped, or injected again at any time; agents and the
controller restart. A failing operation keeps what it wrote before it failed. -/
namespace Archon.Sim
open Std Fallible Archon.Kernel

inductive TraceEvent where
  | command (command : Command)
  | setNow (now : UInt64)
  | setAgreement (agreed : Bool)
  | advanceEpoch
  | deliver
  | drop
  | restartAgent (machine : NodeId) (session : UInt64)
  deriving DecidableEq

structure Agent where
  session : UInt64
  epoch : UInt64
  deriving DecidableEq

structure World where
  cluster : Cluster
  agents : OrdMap NodeId Agent
  endpoints : OrdMap EndpointKey Endpoint
  pending : List Effect
  trace : List TraceEvent
  nextSession : UInt64
  nextHandle : UInt64

abbrev WorldM := EStateM Error World

namespace World

def new : World where
  cluster := .new
  agents := ∅
  endpoints := ∅
  pending := []
  trace := []
  nextSession := 1
  nextHandle := 1

/-- Run an operation of the cluster. -/
def onCluster {α : Type} (program : ClusterM α) : WorldM α := fun self =>
  match program self.cluster with
  | .ok a cluster => .ok a { self with cluster }
  | .error e cluster => .error e { self with cluster }

/-- Only an accepted command enters the trace. -/
def commit (command : Command) : WorldM (List Effect) := do
  let effects ← onCluster (Cluster.apply command)
  modify fun self => { self with trace := self.trace ++ [.command command] }
  return effects

def pushEffects (effects : List Effect) : WorldM Unit :=
  modify fun self => { self with pending := self.pending ++ effects }

def apply (command : Command) : WorldM (List Effect) := do
  let effects ← commit command
  pushEffects effects
  return effects

/-- The endpoints a machine enforces, in ascending order. -/
def enforcedUnder (cluster : Cluster) (machine : NodeId) : List EndpointKey :=
  let nodes := cluster.graph.descendants machine ++ [machine]
  let claimed := cluster.graph.claimBindings.toList.filter fun entry => entry.1 ∈ nodes
  sortAsc (claimed.flatMap fun entry =>
    (OrdMap.vals entry.2).map fun binding => (⟨binding.provider, entry.1⟩ : EndpointKey)).dedup

/-- A new process of the machine's agent, under a new session. -/
def startAgent (machine : NodeId) : WorldM UInt64 := do
  let self ← get
  let session := self.nextSession
  modify fun self => { self with
    nextSession := self.nextSession + 1
    agents := self.agents.insert machine ⟨session, self.cluster.epoch⟩ }
  return session

def registerAgent (machine : NodeId) : WorldM UInt64 := do
  let session ← startAgent machine
  modify fun self => { self with
    endpoints := (enforcedUnder self.cluster machine).foldl (fun endpoints key =>
      OrdMap.upsert endpoints key (Endpoint.new key.provider key.node session)
        fun endpoint => endpoint.handshake session) self.endpoints }
  let _ ← apply (.setAgentSession machine session)
  return session

def restartAgent (machine : NodeId) : WorldM UInt64 := do
  let session ← startAgent machine
  modify fun self => { self with
    endpoints := self.endpoints.map fun _ endpoint =>
      if self.cluster.graph.machineOf endpoint.node = some machine then endpoint.handshake session
      else endpoint
    trace := self.trace ++ [.restartAgent machine session] }
  let _ ← apply (.setAgentSession machine session)
  return session

def setNow (now : UInt64) : WorldM Unit :=
  modify fun self => { self with
    cluster := self.cluster.setNow now
    trace := self.trace ++ [.setNow now] }

def setAgreement (agreed : Bool) : WorldM Unit :=
  modify fun self => { self with
    cluster := self.cluster.setAgreement agreed
    trace := self.trace ++ [.setAgreement agreed] }

def advanceEpoch : WorldM Unit :=
  modify fun self => { self with
    cluster := self.cluster.advanceEpoch
    trace := self.trace ++ [.advanceEpoch] }

/-! Recovery of the controller. -/

def replayEvent (cluster : Cluster) : TraceEvent → Except Error Cluster
  | .command command =>
    match Cluster.apply command cluster with
    | .ok _ cluster => .ok cluster
    | .error e _ => .error e
  | .setNow now => .ok (cluster.setNow now)
  | .setAgreement agreed => .ok (cluster.setAgreement agreed)
  | .advanceEpoch => .ok cluster.advanceEpoch
  | .deliver | .drop | .restartAgent _ _ => .ok cluster

def replayTrace (self : World) : Except Error Cluster :=
  self.trace.foldlM replayEvent .new

/-- Agents and endpoints keep enforcing while a fresh controller replays. -/
def restartController : WorldM Unit := do
  let self ← get
  let cluster ← attempt self.replayTrace
  modify fun self => { self with cluster }

/-! Delivery of effects. -/

/-- The command that acknowledges an order its endpoint has carried out. -/
def acknowledgement (order : EndpointOrder) (handle : UInt64) : Command :=
  match order.op with
  | .prepare => .recordBindingPrepared order.binding order.session handle order.fence
  | .activate => .recordBindingActive order.binding order.session order.fence
  | .release => .recordBindingReleased order.binding order.session order.fence
  | .fence => .recordBindingFenced order.binding order.session order.fence

/-- Carry out an order at its endpoint; only a prepare uses up a handle, and
only a refused prepare is reported. -/
def serve (order : EndpointOrder) : WorldM (Option Command) := fun self =>
  let key : EndpointKey := ⟨order.provider, order.node⟩
  let fresh := Endpoint.new order.provider order.node order.session
  let endpoint := self.endpoints[key]?.getD fresh
  match Endpoint.apply order.op order.binding order.fence order.session endpoint with
  | .ok _ endpoint =>
    .ok (some (acknowledgement order self.nextHandle)) { self with
      endpoints := self.endpoints.insert key endpoint
      nextHandle := if order.op = .prepare then self.nextHandle + 1 else self.nextHandle }
  | .error _ endpoint =>
    .ok (if order.op = .prepare then
        some (.recordBindingFailed order.binding order.session "endpoint rejected prepare" order.fence)
      else none) { self with endpoints := self.endpoints.insert key endpoint }

/-- An agent serves orders of its own session and of no older epoch. -/
def applyEffect (effect : Effect) : WorldM (Option Command) := do
  let self ← get
  match effect.order with
  | none => return none
  | some order =>
    match self.cluster.graph.machineOf order.node with
    | none => return none
    | some machine =>
      match self.agents[machine]? with
      | none => return none
      | some agent =>
        if order.epoch < agent.epoch ∨ order.session ≠ agent.session then
          return none
        else do
          modify fun self => { self with
            agents := self.agents.insert machine
              { agent with epoch := if agent.epoch < order.epoch then order.epoch else agent.epoch } }
          serve order

/-- Whether the endpoint of a binding still enforces exactly that binding. -/
def proven (self : World) (id : BindingId) (binding : Binding) : Bool :=
  self.endpoints[(⟨binding.provider, binding.node⟩ : EndpointKey)]?.any fun endpoint =>
    endpoint.isOpen && endpoint.binding = some id && endpoint.acceptedFence = binding.fence

/-- The bindings an agent was told about: one that its endpoint proves moves to
the new session, any other is fenced, and its lease fails once. -/
def reconcileBindings (session epoch : UInt64) : List LeaseId → List BindingId → WorldM Unit
  | _, [] => return ()
  | failedLeases, id :: rest => do
    let self ← get
    match self.cluster.bindings[id]? with
    | none => reconcileBindings session epoch failedLeases rest
    | some binding =>
      let leaseLive := self.cluster.leases[binding.lease]?.any fun lease => lease.state.isLive
      if leaseLive && self.proven id binding then do
        let _ ← commit (.rebindSession id session)
        if binding.state = .preparing then
          pushEffects [.prepare id binding.node binding.provider binding.fence session epoch]
        if binding.state = .active then
          pushEffects [.activate id binding.node binding.provider binding.fence session epoch]
        reconcileBindings session epoch failedLeases rest
      else if binding.state = .preparing ∨ binding.state = .active then
        if leaseLive ∧ binding.lease ∉ failedLeases then do
          let _ ← apply (.failLease binding.lease "reconciliation could not prove the binding")
          reconcileBindings session epoch (binding.lease :: failedLeases) rest
        else do
          pushEffects [.fence id binding.node binding.provider binding.fence session epoch]
          reconcileBindings session epoch failedLeases rest
      else
        reconcileBindings session epoch failedLeases rest

/-- A fence for an endpoint of the machine that is open for no expected binding. -/
def strayFence (self : World) (machine : NodeId) (session epoch : UInt64)
    (entry : EndpointKey × Endpoint) : Option Effect :=
  if self.cluster.graph.machineOf entry.1.node ≠ some machine ∨ ¬entry.2.isOpen then
    none
  else
    match entry.2.binding with
    | none => none
    | some id =>
      if self.cluster.bindings[id]?.any fun binding =>
          binding.state = .preparing || binding.state = .active then
        none
      else
        some (.fence id entry.1.node entry.2.provider entry.2.acceptedFence session epoch)

/-- A stale reconcile of the current epoch may move the agent's session back. -/
def reconcile (machine : NodeId) (session epoch : UInt64) (bindings : List BindingId) :
    WorldM Unit := do
  let self ← get
  match self.agents[machine]? with
  | none => return ()
  | some agent =>
    if epoch < agent.epoch then
      return ()
    else do
      modify fun self => { self with agents := self.agents.insert machine ⟨session, epoch⟩ }
      reconcileBindings session epoch [] bindings
      let self ← get
      pushEffects (self.endpoints.toList.filterMap (self.strayFence machine session epoch))

def dispatch (effect : Effect) : WorldM Unit :=
  match effect with
  | .reconcile machine session epoch bindings => reconcile machine session epoch bindings
  | other => do
    match ← applyEffect other with
    | none => return ()
    | some command => do
      let effects ← commit command
      pushEffects effects

def deliverOne : WorldM Bool := do
  let self ← get
  match self.pending with
  | [] => return false
  | effect :: rest => do
    modify fun self => { self with pending := rest, trace := self.trace ++ [.deliver] }
    dispatch effect
    return true

def dropOne : WorldM Bool := do
  let self ← get
  match self.pending with
  | [] => return false
  | _ :: rest => do
    modify fun self => { self with pending := rest, trace := self.trace ++ [.drop] }
    return true

def inject (effect : Effect) : WorldM Unit := dispatch effect

end World

/-! Runs of the world. -/

inductive WorldEvent where
  | apply (command : Command)
  | deliverOne
  | dropOne
  | inject (effect : Effect)
  | registerAgent (machine : NodeId)
  | restartAgent (machine : NodeId)
  | restartController
  | setNow (now : UInt64)
  | setAgreement (agreed : Bool)
  | advanceEpoch
  deriving DecidableEq

namespace World

def perform : WorldEvent → WorldM Unit
  | .apply command => (fun _ => ()) <$> apply command
  | .deliverOne => (fun _ => ()) <$> deliverOne
  | .dropOne => (fun _ => ()) <$> dropOne
  | .inject effect => inject effect
  | .registerAgent machine => (fun _ => ()) <$> registerAgent machine
  | .restartAgent machine => (fun _ => ()) <$> restartAgent machine
  | .restartController => restartController
  | .setNow now => setNow now
  | .setAgreement agreed => setAgreement agreed
  | .advanceEpoch => advanceEpoch

/-- The world after one event, whatever it returned. -/
def take (self : World) (event : WorldEvent) : World := after (perform event) self

/-- The world after a sequence of events. -/
def run (events : List WorldEvent) : World := Runs.run take new events

end World
end Archon.Sim
