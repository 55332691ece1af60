import Archon.Agent.LeaseAgent
import Archon.Node.Tracing

/-! The machines around a controller. The worker of a machine takes its calls in order, writes
each to the connection and reads an answer for it; the agent handles what was written, in order.
A worker that stops waiting for an answer reads it for a later call. -/
namespace Archon.Agent
open Archon.Kernel Archon.Node Fallible

/-- A call, and what the controller had when it sent the call. -/
structure Job where
  tag : Tag
  request : AgentRequest
  sent : NodeService

/-- A machine: its agent, the session it is registered in, the calls that its worker has still
to take, those that are written and not handled, the answers that are not read, and the call
that the worker waits for. -/
structure Site where
  agent : LeaseAgent
  session : Option UInt64
  backlog : List Job
  wire : List Job
  unread : List AgentResponse
  waiting : Option Tag

namespace LeaseAgent

/-- The program of a lease has ended. -/
def exit (lease : LeaseId) (self : LeaseAgent) : LeaseAgent :=
  { self with execution := { self.execution with
      workloads.processes := self.execution.workloads.processes.erase lease
      workloads.containers := self.execution.workloads.containers.erase lease } }

end LeaseAgent

namespace Site

def send (job : Job) (self : Site) : Site := { self with backlog := self.backlog ++ [job] }

/-- The worker takes its next call; the write may fail. -/
def take (written : Bool) (self : Site) : Site :=
  match self.waiting, self.backlog with
  | none, job :: rest =>
    if written then { self with backlog := rest, wire := self.wire ++ [job], waiting := some job.tag }
    else { self with backlog := rest }
  | _, _ => self

def handle (os : Answers) (self : Site) : Site :=
  match self.wire with
  | [] => self
  | job :: rest =>
    let answered := self.agent.handle os job.request
    { self with agent := answered.2, wire := rest, unread := self.unread ++ [answered.1] }

/-- The answer that the worker reads next. -/
def answer (self : Site) : Option (Tag × AgentResponse) :=
  match self.waiting, self.unread with
  | some tag, response :: _ => some (tag, response)
  | _, _ => none

def read (self : Site) : Site :=
  match self.waiting, self.unread with
  | some _, _ :: rest => { self with unread := rest, waiting := none }
  | _, _ => self

/-- The worker stops waiting. -/
def giveUp (self : Site) : Site := { self with waiting := none }

def exit (lease : LeaseId) (self : Site) : Site := { self with agent := self.agent.exit lease }

/-- A new agent answers on a new connection. -/
def connect (cgroupRoot : Option String) (engine label : String) (self : Site) : Site where
  agent := .new (.new cgroupRoot engine label)
  session := self.session
  backlog := []
  wire := []
  unread := []
  waiting := none

def register (session : UInt64) (self : Site) : Site := { self with session := some session }

/-- Nothing was sent to the agent yet. -/
structure Blank (site : Site) : Prop where
  agent : ∃ cgroupRoot engine label, site.agent = .new (.new cgroupRoot engine label)
  backlog : site.backlog = []
  wire : site.wire = []
  unread : site.unread = []
  waiting : site.waiting = none

/-- The calls that the agent may still handle, in their order. -/
def due (self : Site) : List Job := self.wire ++ self.backlog

end Site

/-- The machines, and the answers that their workers have posted. -/
structure Plant where
  sites : NodeId → Site
  answers : List (Tag × AgentResponse)

inductive Event where
  /-- The controller does what its trace shows. -/
  | seen (entry : Entry)
  | take (machine : NodeId) (written : Bool)
  | handle (machine : NodeId) (os : Answers)
  | read (machine : NodeId)
  | giveUp (machine : NodeId)
  | exit (machine : NodeId) (lease : LeaseId)
  | connect (machine : NodeId) (cgroupRoot : Option String) (engine label : String)

namespace Plant

def update (machine : NodeId) (f : Site → Site) (self : Plant) : Plant :=
  { self with sites := Function.update self.sites machine (f (self.sites machine)) }

def watch (entry : Entry) (self : Plant) : Plant :=
  match entry.seen with
  | .dispatched machine tag request => self.update machine (.send ⟨tag, request, entry.service⟩)
  | .committed (.setAgentSession machine session) => self.update machine (.register session)
  | _ => self

def step (self : Plant) : Event → Plant
  | .seen entry => self.watch entry
  | .take machine written => self.update machine (.take written)
  | .handle machine os => self.update machine (.handle os)
  | .read machine =>
    { self.update machine .read with answers := (self.sites machine).answer.toList ++ self.answers }
  | .giveUp machine => self.update machine .giveUp
  | .exit machine lease => self.update machine (.exit lease)
  | .connect machine cgroupRoot engine label => self.update machine (.connect cgroupRoot engine label)

/-- The controller takes up no answers but those that were posted, a session is of a connection
that was not used before, and what the agent gets to know of its programs is so. -/
def Permits (self : Plant) : Event → Prop
  | .seen entry =>
    match entry.seen with
    | .absorbed tag (.ok response) => (tag, response) ∈ self.answers
    | .committed (.setAgentSession machine _) => (self.sites machine).Blank
    | _ => True
  | .handle machine os => ∀ job ∈ (self.sites machine).wire.head?, (self.sites machine).agent.Hears os job.request
  | _ => True

/-- What the controller has done, of what happened. -/
def shown (events : List Event) : List Entry :=
  events.filterMap fun event => match event with
    | .seen entry => some entry
    | _ => none

def run (start : Plant) (events : List Event) : Plant := Runs.run step start events

/-- Nothing was sent or answered yet. -/
structure Fresh (plant : Plant) (cluster : Cluster) : Prop where
  sites : ∀ machine, (plant.sites machine).Blank
  session : ∀ machine, (plant.sites machine).session = cluster.sessions[machine]?
  answers : plant.answers = []

end Plant
end Archon.Agent
