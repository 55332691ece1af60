import Archon.Lib.Runs
import Archon.Kernel.Endpoint

/-! The resource provider of an agent: one endpoint for each exclusive resource
and for each independent share, behind the newest session and epoch the agent
has seen. A failing call keeps what it wrote before it failed. -/
namespace Archon.Node
open Std Fallible Archon.Kernel

/-- Exclusive resources are keyed by provider and node, independent shares by
their binding, so one share cannot fence a sibling. -/
inductive EndpointKey where
  | exclusive (provider node : UInt64)
  | independentShare (binding : UInt64)
  deriving DecidableEq

namespace EndpointKey

/-- The position of the variant. -/
def index : EndpointKey → Nat
  | .exclusive _ _ => 0
  | .independentShare _ => 1

def major : EndpointKey → UInt64
  | .exclusive provider _ => provider
  | .independentShare binding => binding

def minor : EndpointKey → UInt64
  | .exclusive _ node => node
  | .independentShare _ => 0

/-- The derived order: by variant, then by fields. -/
def order : EndpointKey → EndpointKey → Ordering :=
  compareLex (compareOn index) (compareLex (compareOn major) (compareOn minor))

instance : Ord EndpointKey := ⟨order⟩

instance : TransOrd EndpointKey :=
  inferInstanceAs (TransCmp
    (compareLex (compareOn index) (compareLex (compareOn major) (compareOn minor))))

instance : LawfulEqOrd EndpointKey where
  eq_of_compare {a b} h := by
    have horder : order a b = .eq := h
    simp only [order, compareLex_eq_eq, compareOn, LawfulEqCmp.compare_eq_iff_eq] at horder
    cases a <;> cases b <;> simp_all [index, major, minor]

end EndpointKey

/-- One controller-issued generation for a binding endpoint. -/
structure EndpointGeneration where
  binding : UInt64
  node : UInt64
  provider : UInt64
  scope : BindingScope
  session : UInt64
  fence : UInt64
  epoch : UInt64
  deriving DecidableEq

structure ResourceProvider where
  /-- Highest agent session accepted by this process. -/
  session : UInt64
  /-- Highest cluster epoch accepted by this agent. -/
  epoch : UInt64
  nextHandle : UInt64
  endpoints : OrdMap EndpointKey Endpoint

namespace ResourceProvider

def new : ResourceProvider where
  session := 0
  epoch := 0
  nextHandle := 1
  endpoints := ∅

def endpointKey (generation : EndpointGeneration) : EndpointKey :=
  match generation.scope with
  | .exclusive => .exclusive generation.provider generation.node
  | .independentShare => .independentShare generation.binding

def checkControlGeneration (session epoch : UInt64) : EStateM String ResourceProvider Unit := do
  let self ← get
  attempt (refuseIf (epoch < self.epoch) s!"stale cluster epoch {epoch}; current {self.epoch}")
  attempt (refuseIf (session < self.session)
    s!"stale agent session {session}; current {self.session}")
  if self.epoch < epoch then
    modify fun self => { self with epoch }
  if self.session < session then
    modify fun self =>
      { self with session, endpoints := self.endpoints.map fun _ endpoint =>
          endpoint.handshake session }

/-- Apply an operation of the generation to its endpoint. -/
def request (op : EndpointOp) (generation : EndpointGeneration) (subject : String) :
    EStateM String Endpoint Unit :=
  EStateM.adaptExcept (fun err : EndpointError =>
      s!"provider endpoint rejected {subject}: {err.debugText}")
    (Endpoint.apply op ⟨generation.binding⟩ generation.fence generation.session)

/-- What happens at the endpoint: a new session is heard, an endpoint the agent
does not know is first prepared, then the operation is applied. -/
def serve (op : EndpointOp) (generation : EndpointGeneration) (adoptOnActivate : Bool) :
    EStateM String Endpoint Unit := do
  modify fun endpoint => endpoint.handshake generation.session
  if adoptOnActivate then
    request .prepare generation "adoption"
  request op generation "generation"

/-- Run a program on the endpoint stored under `key`. -/
def onEndpoint (key : EndpointKey) (program : EStateM String Endpoint Unit) :
    EStateM String ResourceProvider Unit := fun self =>
  match self.endpoints[key]? with
  | none => .error "binding endpoint has not been prepared" self
  | some endpoint =>
    match program endpoint with
    | .ok () endpoint => .ok () { self with endpoints := self.endpoints.insert key endpoint }
    | .error err endpoint =>
      .error err { self with endpoints := self.endpoints.insert key endpoint }

def apply (op : EndpointOp) (generation : EndpointGeneration) :
    EStateM String ResourceProvider Unit := do
  checkControlGeneration generation.session generation.epoch
  let self ← get
  let key := endpointKey generation
  let adoptOnActivate := decide (op = .activate ∧ key ∉ self.endpoints)
  let create := adoptOnActivate || decide (op = .prepare ∨ op = .release ∨ op = .fence)
  if create then
    let fresh := Endpoint.new ⟨generation.provider⟩ ⟨generation.node⟩ generation.session
    modify fun self => { self with endpoints := self.endpoints.insertIfNew key fresh }
  onEndpoint key (serve op generation adoptOnActivate)

/-- Returns a handle for the prepared resource. -/
def prepare (generation : EndpointGeneration) : EStateM String ResourceProvider UInt64 := do
  apply .prepare generation
  let self ← get
  modify fun self => { self with nextHandle := self.nextHandle + 1 }
  pure self.nextHandle

def activate (generation : EndpointGeneration) : EStateM String ResourceProvider Unit :=
  apply .activate generation

/-- Validates the control generation; grants no authority over a resource. -/
def authorizeExecution (session epoch : UInt64) : EStateM String ResourceProvider Unit :=
  checkControlGeneration session epoch

def release (generation : EndpointGeneration) : EStateM String ResourceProvider Unit :=
  apply .release generation

def fence (generation : EndpointGeneration) : EStateM String ResourceProvider Unit :=
  apply .fence generation

end ResourceProvider

/-! Runs of a provider: any calls in any order, refused ones included. -/

inductive Call where
  | prepare (generation : EndpointGeneration)
  | activate (generation : EndpointGeneration)
  | release (generation : EndpointGeneration)
  | fence (generation : EndpointGeneration)
  | authorizeExecution (session epoch : UInt64)
  deriving DecidableEq

namespace Call

def perform : Call → EStateM String ResourceProvider Unit
  | .prepare generation => (fun _ => ()) <$> ResourceProvider.prepare generation
  | .activate generation => ResourceProvider.activate generation
  | .release generation => ResourceProvider.release generation
  | .fence generation => ResourceProvider.fence generation
  | .authorizeExecution session epoch => ResourceProvider.authorizeExecution session epoch

/-- The endpoint a call is about. -/
def key : Call → Option EndpointKey
  | .prepare generation | .activate generation | .release generation | .fence generation =>
    some (ResourceProvider.endpointKey generation)
  | .authorizeExecution _ _ => none

end Call

namespace ResourceProvider

/-- The provider after one call, whatever it returned. -/
def take (self : ResourceProvider) (call : Call) : ResourceProvider := after call.perform self

/-- The provider after a sequence of calls. -/
def run (calls : List Call) : ResourceProvider := Runs.run take new calls

/-- Whether the call returns without an error. -/
def accepts (self : ResourceProvider) (call : Call) : Bool :=
  match call.perform self with
  | .ok _ _ => true
  | .error _ _ => false

end ResourceProvider
end Archon.Node
