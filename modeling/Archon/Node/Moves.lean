import Archon.Lib.Follows
import Archon.Kernel.Frames
import Archon.Node.Operation

/-! What the controller can do. Each move changes the world in one place and
carries what the code has checked or seen before it; every operation is a
sequence of moves, and invariants are proved over moves, never over programs. -/
namespace Archon.Node
open Archon.Kernel Fallible

namespace World

def observe (w : World) (seen : Observation) : World :=
  { w with trace := w.trace ++ [⟨w.service, seen⟩] }

def update (w : World) (f : NodeService → NodeService) : World := { w with service := f w.service }

def updateRecovery (w : World) (machine : NodeId) (f : MachineRecovery → MachineRecovery) : World :=
  w.update fun s => { s with recoveringMachines := s.recoveringMachines.modify machine f }

/-- An accepted command, recorded and given to the sink before its effects queue up. -/
def commit (w : World) (command : Command) (effects : List Effect) (cluster : Cluster) : World :=
  let decided := (w.observe (.committed command)).update fun s => { s with cluster }
  let recorded := if decided.service.durableSink then decided.observe (.persisted (some command))
    else decided
  recorded.update fun s => { s with pending := s.pending ++ effects }

/-- A call is handed to the worker of its machine, or dropped. -/
def call (w : World) (machine : NodeId) (tag : Tag) (request : AgentRequest) : World :=
  let asked := w.update fun s => { s with inflight := insert tag s.inflight }
  if w.service.agents[machine]? = some true then asked.observe (.dispatched machine tag request)
  else asked.update fun s => { s with inflight := s.inflight.erase tag }

/-- The answer of an agent is taken up. -/
def answer (w : World) (tag : Tag) (reply : AgentReply) : World :=
  (w.observe (.absorbed tag reply)).update fun s => { s with inflight := s.inflight.erase tag }

/-- The evidence about a member is joined and the member no longer awaited. -/
def join (w : World) (lease : LeaseId) (machine : NodeId) (status : MemberStatus) : World :=
  (w.observe (.joined lease machine status)).updateRecovery machine fun recovery =>
    { recovery with members := recovery.members.erase lease }

/-- Something the observer has seen. -/
def Saw (w : World) (seen : Observation) : Prop := ∃ entry ∈ w.trace, entry.seen = seen

end World

/-- The binding and the phase an effect asks for. -/
def effectCall : Effect → Option Held
  | .prepare binding _ _ _ _ _ => some ⟨binding, .prepare⟩
  | .activate binding _ _ _ _ _ => some ⟨binding, .activate⟩
  | .release binding _ _ _ _ _ => some ⟨binding, .release⟩
  | .fence binding _ _ _ _ _ => some ⟨binding, .fence⟩
  | .reconcile .. => none

def Tag.isStart : Tag → Bool
  | .executionStart _ _ _ => true
  | _ => false

/-- A call to an agent, with what was checked before it. -/
inductive Calls (s : NodeService) : NodeId → Tag → AgentRequest → Prop where
  | start {lease : LeaseId} {machine : NodeId} {session : UInt64}
      (hactive : s.leaseIsActive lease) (hprogram : s.hasProgram lease)
      (hproven : Service.allProviderActive s lease) (hrecovered : machine ∉ s.recoveringMachines)
      (hsession : s.cluster.sessions[machine]? = some session)
      (hfresh : ⟨lease, machine, session⟩ ∉ s.executionStarted)
      (hidle : .executionStart lease machine session ∉ s.inflight) :
      Calls s machine (.executionStart lease machine session)
        (.startExecution lease.asU64 session epoch command limits image storage ports grace devices)
  | stop {lease : LeaseId} {machine : NodeId} {session : UInt64} (hterminal : s.leaseIsTerminal lease)
      (hsession : s.cluster.sessions[machine]? = some session) :
      Calls s machine (.executionStop lease machine session) (.stopExecution lease.asU64 session epoch)
  | status {lease : LeaseId} {machine : NodeId} {session : UInt64}
      (hsession : s.cluster.sessions[machine]? = some session) :
      Calls s machine (.status lease machine session) (.status lease.asU64)
  | enumerate : Calls s machine (.enumerate machine session) .enumerateBindings
  | probe : Calls s machine (.probe machine) (.status 0)
  | binding {id : BindingId} {record : Binding} {machine : NodeId} {call : BindingCall}
      (hrecord : s.cluster.bindings[id]? = some record)
      (hmachine : s.cluster.graph.machineOf record.node = some machine)
      (hfree : Service.mustHold s record.lease machine = false) (hcall : call.binding = id.asU64) :
      Calls s machine (.binding id record.agentSession record.fence phase) (.binding phase call)
  | stray {id : BindingId} {machine : NodeId} {call : BindingCall} {recovery : MachineRecovery}
      (hclosed : ∀ record, s.cluster.bindings[id]? = some record → record.state.isClosed)
      (hcall : call.binding = id.asU64)
      (hrecovery : s.recoveringMachines[machine]? = some recovery)
      (hstray : .strayFence machine session node provider scope id fence ∈ recovery.strayFences) :
      Calls s machine (.strayFence machine session node provider scope id fence) (.binding .fence call)

/-- Whether an effect of the binding has to wait for the proof of a stop. -/
def Service.awaitsStop (s : NodeService) (binding : BindingId) : Bool :=
  s.cluster.bindings[binding]?.any fun record =>
    (s.cluster.graph.machineOf record.node).any fun machine => mustHold s record.lease machine

/-- The effect was taken from the queue while its binding had to wait. -/
def Held.RoutedBy (held : Held) (entry : Entry) : Prop :=
  ∃ effect, entry.seen = .routed effect ∧ effectCall effect = some held ∧
    Service.awaitsStop entry.service held.binding

/-- An accepted acknowledgement of a generation. -/
def Acknowledged (trace : List Entry) (generation : Generation) : Prop :=
  ∃ before taken accepted rest phase got, trace = before ++ taken :: accepted :: rest ∧
    taken.seen = .absorbed (.binding generation.binding generation.session generation.fence phase)
      (.ok (.activated got)) ∧
    accepted.seen = .committed
      (.recordBindingActive generation.binding generation.session generation.fence)

/-- A join that proved a generation on its machine. -/
def ProvenBy (entry : Entry) (generation : Generation) : Prop :=
  ∃ lease machine status recovery record, entry.seen = .joined lease machine status ∧
    entry.service.recoveringMachines[machine]? = some recovery ∧
    entry.service.cluster.bindings[generation.binding]? = some record ∧ record.lease = lease ∧
    entry.service.cluster.graph.machineOf record.node = some machine ∧
    (∀ session, entry.service.cluster.sessions[machine]? = some session →
      session = generation.session) ∧
    record.fence = generation.fence ∧ recovery.endpointsSettled ∧ recovery.proves record

/-- The proof that a member is gone: its answer to a stop, or its exit joined in
the session. -/
inductive StopShown (trace : List Entry) (member : MemberSession) : Prop where
  | answered {entry : Entry} (hentry : entry ∈ trace)
      (hseen : entry.seen = .absorbed (.executionStop member.lease member.machine member.session)
        (.ok (.executionStopped member.lease.asU64)))
  | exited {entry : Entry} {status : MemberStatus} (hentry : entry ∈ trace)
      (hseen : entry.seen = .joined member.lease member.machine status)
      (hrunning : status.running = false) (hexit : status.exitCode.isSome)
      (hsession : entry.service.cluster.sessions[member.machine]? = some member.session)

/-- What may stand between the join of a member and its report. -/
def settlesMember (lease : LeaseId) : Observation → Bool
  | .committed (.rebindSession _ _) => true
  | .committed (.completeLease id _) => id = lease
  | .persisted _ => true
  | _ => false

namespace Service

/-- A binding without its session. -/
def unsessioned (binding : Binding) : Binding := { binding with agentSession := 0 }

/-- The lease stands as it stood, or it was completed. -/
def SettledBy (join : Entry) (lease : LeaseId) (rest : List Entry) (cluster : Cluster) : Prop :=
  cluster.leases = join.service.cluster.leases ∨
    ∃ entry ∈ rest, ∃ code, entry.seen = .committed (.completeLease lease code)

/-- The world some time after a join, with nothing decided in between. -/
structure Since (join : Entry) (lease : LeaseId) (machine : NodeId) (status : MemberStatus)
    (w : World) : Prop where
  seen : join.seen = .joined lease machine status
  shape : ∃ before rest, w.trace = before ++ join :: rest ∧
    (∀ entry ∈ rest, settlesMember lease entry.seen) ∧ SettledBy join lease rest w.service.cluster
  sessions : w.service.cluster.sessions = join.service.cluster.sessions
  graph : w.service.cluster.graph = join.service.cluster.graph
  bindings : ∀ id : BindingId, w.service.cluster.bindings[id]?.map unsessioned =
    join.service.cluster.bindings[id]?.map unsessioned

end Service

/-- A member is reported recovered after its join, in the same breath. -/
def Recovers (w : World) (lease : LeaseId) (machine : NodeId) (running : Bool)
    (exitCode : Option Int32) : Prop :=
  ∃ join, Service.Since join lease machine ⟨running, exitCode⟩ w ∧
    join.service.leaseIsTerminal lease = false ∧ (running || exitCode.isSome)

/-- One move; `own` leaves out sessions that the controller does not mint. -/
inductive Move (own : Bool) (w : World) : World → Prop where
  | commit (hplain : isGuarded command = false)
      (h : Cluster.apply command w.service.cluster = .ok effects cluster) :
      Move own w (w.commit command effects cluster)
  | hello (hblank : own → w.service.recoveringMachines[machine]? = some (.new session) ∨
        machine ∉ w.service.cluster.sessions)
      (h : Cluster.apply (.setAgentSession machine session) w.service.cluster = .ok effects cluster) :
      Move own w (w.commit (.setAgentSession machine session) effects cluster)
  | refuse (h : Cluster.apply command w.service.cluster = .error e left) :
      Move own w (w.update fun s => { s with cluster := left })
  | clock (now : UInt64) : Move own w (w.update fun s => { s with cluster := s.cluster.setNow now })
  | persist (h : w.service.durableSink) : Move own w (w.observe (.persisted none))
  | call (h : Calls w.service machine tag request) :
      Move own w (w.call machine tag request)
  | answer (reply : AgentReply) (htag : tag.isStart = false) : Move own w (w.answer tag reply)
  | answerStart (lease : LeaseId) (machine : NodeId) (session : UInt64) (reply : AgentReply) :
      Move own w (after (Service.absorbReply (.executionStart lease machine session) reply) w)
  | pop (h : w.service.pending = effect :: rest) :
      Move own w ((w.observe (.routed effect)).update fun s => { s with pending := rest })
  | hold (held : Held)
      (h : held.phase.isTeardown ∨ ∃ entry ∈ w.trace, held.RoutedBy entry) :
      Move own w (w.update fun s => { s with heldEffects := s.heldEffects.insert held () })
  | drain : Move own w ((w.observe .driven).update fun s => { s with heldEffects := ∅ })
  | rehold (held : Held) (h : ∃ entry ∈ w.trace, held ∈ entry.service.heldEffects) :
      Move own w (w.update fun s => { s with heldEffects := s.heldEffects.insert held () })
  | activate (h : Acknowledged w.trace generation) :
      Move own w (w.update fun s => { s with
        providerActivations := insert generation s.providerActivations })
  | adopt (generations : List Generation)
      (h : ∀ generation ∈ generations, ∃ entry ∈ w.trace, ∃ lease machine status,
        entry.seen = .joined lease machine status ∧ entry.service.leaseIsTerminal lease = false ∧
          (entry.service.leaseIsActive lease → ProvenBy entry generation)) :
      Move own w (w.update fun s => { s with
        providerActivations := generations.toFinset ∪ s.providerActivations })
  | start (member : MemberSession) :
      Move own w (w.update fun s => { s with executionStarted := insert member s.executionStarted })
  | stop (h : StopShown w.trace member) :
      Move own w (w.update fun s => { s with executionStopped := insert member s.executionStopped })
  | report (event : RecoveryEvent)
      (h : ∀ lease machine running exitCode,
        event = .memberRecovered lease machine running exitCode →
          Recovers w lease machine running exitCode) :
      Move own w ((w.observe (.decided event)).update fun s => { s with
        recoveryEvents := s.recoveryEvents ++ [event] })
  | recover (session : UInt64) (hknown : machine ∈ w.service.cluster.sessions) :
      Move own w ((w.observe (.recovering machine)).update fun s => { s with
        recoveringMachines := s.recoveringMachines.insert machine (.new session)
        memberStatus := s.memberStatus.filter fun member _ => member.machine ≠ machine })
  | await (machine : NodeId) (leases : List LeaseId)
      (h : ∀ lease ∈ leases, ∃ (id : BindingId) (record : Binding), w.service.cluster.bindings[id]? = some record ∧
        record.lease = lease ∧ ∃ found, w.service.cluster.leases[lease]? = some found ∧
          found.state ≠ .preparing) :
      Move own w (w.updateRecovery machine fun recovery => { recovery with
        members := leases.foldl (fun members lease => members.insertIfNew lease none)
          recovery.members })
  | status (h : w.Saw (.absorbed (.status lease machine session) reply))
      (hsession : w.service.cluster.sessions[machine]? = some session)
      (hawaited : Service.awaitsRecovery w.service lease machine) :
      Move own w (w.updateRecovery machine fun recovery => { recovery with
        members := recovery.members.insert lease
          (some ((Service.reportedStatus lease reply).getD .unknown)) })
  | endpoints {endpoints : List EnumeratedEndpoint} {entry : Entry} (hentry : entry ∈ w.trace)
      (hseen : entry.seen = .absorbed (.enumerate machine session) (.ok (.bindingsEnumerated endpoints)))
      (hconsistent : endpoints.any (Service.inconsistent entry.service machine) = false)
      (hsession : w.service.cluster.sessions[machine]? = some session) :
      Move own w (w.updateRecovery machine fun recovery => { recovery with
        endpoints := some endpoints })
  | stray (machine : NodeId) (tag : Tag) :
      Move own w (w.updateRecovery machine fun recovery => { recovery with
        strayFences := insert tag recovery.strayFences })
  | closed {id : BindingId} {entry : Entry} (hentry : w.trace.getLast? = some entry)
      (hseen : entry.seen = .absorbed (.strayFence machine session node provider scope id fence)
        (.ok (.fenced id.asU64))) :
      Move own w (w.updateRecovery machine fun recovery => { recovery with
        strayFences := recovery.strayFences.erase
          (.strayFence machine session node provider scope id fence) })
  | join {recovery : MachineRecovery} {status : MemberStatus}
      (hrecovery : w.service.recoveringMachines[machine]? = some recovery)
      (hmember : recovery.members[lease]? = some (some status))
      (hproven : w.service.leaseIsActive lease → (status.running || status.exitCode.isSome) →
        Service.endpointsProven w.service recovery lease machine) :
      Move own w (w.join lease machine status)
  | recovered (machine : NodeId) :
      Move own w ((w.observe (.recovered machine)).update fun s => { s with
        recoveringMachines := s.recoveringMachines.erase machine })
  | session (next : UInt64) :
      Move own w (w.update fun s => { s with state := { s.state with nextSession := next } })
  | inert (inbox : List (Tag × AgentReply)) (memberStatus : OrdMap Member MemberStatus)
      (agents : OrdMap NodeId Bool) (capabilities : OrdMap NodeId ExecutionCapabilities)
      (unreachable : List NodeId) (events : List RecoveryEvent) :
      Move own w (w.update fun s => { s with
        inbox, memberStatus, agents, executionCapabilities := capabilities, unreachable
        recoveryEvents := events })

end Archon.Node
