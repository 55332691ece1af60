import Archon.Kernel.Command

/-! The endpoint a provider keeps for one resource: the highest fence it has
accepted and the binding generation it is open for, if any. A generation that
was closed, or overtaken by a higher fence, is sealed and never opens again. -/
namespace Archon.Kernel
open Fallible

inductive EndpointPhase where
  | idle | prepared | active
  deriving DecidableEq

def EndpointPhase.debugName : EndpointPhase → String
  | .idle => "Idle"
  | .prepared => "Prepared"
  | .active => "Active"

structure Endpoint where
  provider : ProviderId
  node : NodeId
  acceptedFence : UInt64
  isOpen : Bool
  binding : Option BindingId
  phase : EndpointPhase
  session : UInt64
  deriving DecidableEq

inductive EndpointOp where
  | prepare | activate | release | fence
  deriving DecidableEq

inductive EndpointError where
  | staleSession (expected got : UInt64)
  | staleFence (accepted got : UInt64)
  | conflict
  | wrongPhase (phase : EndpointPhase)
  deriving DecidableEq

/-- The text of the derived debug format. -/
def EndpointError.debugText : EndpointError → String
  | .staleSession expected got => s!"StaleSession \x7b expected: {expected}, got: {got} \x7d"
  | .staleFence accepted got => s!"StaleFence \x7b accepted: {accepted}, got: {got} \x7d"
  | .conflict => "Conflict"
  | .wrongPhase phase => s!"WrongPhase \x7b phase: {phase.debugName} \x7d"

/-- What an effect asks of one endpoint. -/
structure EndpointOrder where
  op : EndpointOp
  binding : BindingId
  node : NodeId
  provider : ProviderId
  fence : UInt64
  session : UInt64
  epoch : UInt64
  deriving DecidableEq

def Effect.order : Effect → Option EndpointOrder
  | .prepare binding node provider generation session epoch =>
    some ⟨.prepare, binding, node, provider, generation, session, epoch⟩
  | .activate binding node provider generation session epoch =>
    some ⟨.activate, binding, node, provider, generation, session, epoch⟩
  | .release binding node provider generation session epoch =>
    some ⟨.release, binding, node, provider, generation, session, epoch⟩
  | .fence binding node provider generation session epoch =>
    some ⟨.fence, binding, node, provider, generation, session, epoch⟩
  | .reconcile _ _ _ _ => none

namespace Endpoint

def new (provider : ProviderId) (node : NodeId) (session : UInt64) : Endpoint where
  provider
  node
  acceptedFence := 0
  isOpen := false
  binding := none
  phase := .idle
  session

/-- Sessions are process generations; an older hello never reinstates. -/
def handshake (endpoint : Endpoint) (session : UInt64) : Endpoint :=
  if endpoint.session < session then { endpoint with session } else endpoint

def prepare (binding : BindingId) (fence : UInt64) : EStateM EndpointError Endpoint Unit := do
  let endpoint ← get
  attempt (refuseIf (fence < endpoint.acceptedFence) (.staleFence endpoint.acceptedFence fence))
  if fence = endpoint.acceptedFence then
    attempt (refuseIf (¬(endpoint.isOpen ∧ endpoint.binding = some binding ∧
      endpoint.phase = .prepared)) .conflict)
  else
    modify fun endpoint =>
      { endpoint with acceptedFence := fence, isOpen := true, binding := some binding,
                      phase := .prepared }

def activate (binding : BindingId) (fence : UInt64) : EStateM EndpointError Endpoint Unit := do
  let endpoint ← get
  attempt (refuseIf (¬endpoint.isOpen ∨ endpoint.binding ≠ some binding ∨
    fence ≠ endpoint.acceptedFence) .conflict)
  attempt (refuseIf (¬(endpoint.phase = .prepared ∨ endpoint.phase = .active))
    (.wrongPhase endpoint.phase))
  modify fun endpoint => { endpoint with phase := .active }

/-- Closing a superseded generation succeeds and changes nothing. -/
def close (fence : UInt64) : EStateM EndpointError Endpoint Unit := do
  let endpoint ← get
  if fence < endpoint.acceptedFence then
    pure ()
  else
    modify fun endpoint =>
      { endpoint with acceptedFence := fence, isOpen := false, binding := none, phase := .idle }

def apply (op : EndpointOp) (binding : BindingId) (fence session : UInt64) :
    EStateM EndpointError Endpoint Unit := do
  let endpoint ← get
  attempt (refuseIf (session ≠ endpoint.session) (.staleSession endpoint.session session))
  match op with
  | .prepare => prepare binding fence
  | .activate => activate binding fence
  | .release | .fence => close fence

/-! What an accepted operation does. -/

/-- The endpoint after an accepted operation, with what had to hold before. -/
inductive Applied (e : Endpoint) : EndpointOp → BindingId → UInt64 → Endpoint → Prop where
  | again {id : BindingId} (hopen : e.isOpen) (hbinding : e.binding = some id)
      (hphase : e.phase = .prepared) : Applied e .prepare id e.acceptedFence e
  | opened {id : BindingId} {fence : UInt64} (hfence : e.acceptedFence < fence) :
      Applied e .prepare id fence
        { e with acceptedFence := fence, isOpen := true, binding := some id, phase := .prepared }
  | activated {id : BindingId} (hopen : e.isOpen) (hbinding : e.binding = some id)
      (hphase : e.phase ≠ .idle) :
      Applied e .activate id e.acceptedFence { e with phase := .active }
  | superseded {op : EndpointOp} {id : BindingId} {fence : UInt64}
      (hop : op = .release ∨ op = .fence) (hfence : fence < e.acceptedFence) :
      Applied e op id fence e
  | closed {op : EndpointOp} {id : BindingId} {fence : UInt64}
      (hop : op = .release ∨ op = .fence) (hfence : e.acceptedFence ≤ fence) :
      Applied e op id fence
        { e with acceptedFence := fence, isOpen := false, binding := none, phase := .idle }

variable {e e' : Endpoint} {op : EndpointOp} {id : BindingId} {fence session : UInt64}

theorem prepare_ok (h : prepare id fence e = .ok () e') : Applied e .prepare id fence e' := by
  simp only [prepare, bind_ok, get_ok, attempt_ok, refuseIf_ok, ite_ok, modify_ok] at h
  obtain ⟨_, _, ⟨rfl, rfl⟩, _, _, ⟨hfence, rfl⟩, h⟩ := h
  rcases h with ⟨rfl, hsame, rfl⟩ | ⟨hne, rfl⟩
  · obtain ⟨hopen, hbinding, hphase⟩ := not_not.mp hsame
    exact .again hopen hbinding hphase
  · exact .opened (UInt64.lt_of_le_of_ne (UInt64.not_lt.mp hfence) (Ne.symm hne))

theorem activate_ok (h : activate id fence e = .ok () e') :
    Applied e .activate id fence e' := by
  simp only [activate, bind_ok, get_ok, attempt_ok, refuseIf_ok, modify_ok, not_or, not_not] at h
  obtain ⟨_, _, ⟨rfl, rfl⟩, _, _, ⟨⟨hopen, hbinding, rfl⟩, rfl⟩, _, _, ⟨hphase, rfl⟩, rfl⟩ := h
  exact .activated hopen hbinding fun h => hphase (by simp [h])

theorem close_ok (hop : op = .release ∨ op = .fence) (h : close fence e = .ok () e') :
    Applied e op id fence e' := by
  simp only [close, bind_ok, get_ok, ite_ok, pure_ok, modify_ok] at h
  obtain ⟨_, _, ⟨rfl, rfl⟩, h⟩ := h
  rcases h with ⟨hfence, -, rfl⟩ | ⟨hfence, rfl⟩
  · exact .superseded hop hfence
  · exact .closed hop (UInt64.not_lt.mp hfence)

theorem apply_ok (h : apply op id fence session e = .ok () e') :
    session = e.session ∧ Applied e op id fence e' := by
  simp only [apply, bind_ok, get_ok, attempt_ok, refuseIf_ok, not_not] at h
  obtain ⟨_, _, ⟨rfl, rfl⟩, _, _, ⟨hsession, rfl⟩, h⟩ := h
  refine ⟨hsession, ?_⟩
  cases op with
  | prepare => exact prepare_ok h
  | activate => exact activate_ok h
  | release => exact close_ok (.inl rfl) h
  | fence => exact close_ok (.inr rfl) h

/-- A refused operation leaves the endpoint as it was. -/
theorem apply_atomic (e : Endpoint) : Atomic e (apply op id fence session) := by
  cases op <;> simp [apply, prepare, activate, close]

theorem after_apply : after (apply op id fence session) e = e ∨
    Applied e op id fence (after (apply op id fence session) e) := by
  rcases (@apply_atomic op id fence session e).after_eq with h | ⟨u, h⟩
  · exact .inl h
  · exact .inr (apply_ok h).2

/-! Sealed generations. -/

/-- Fence `f` was closed or overtaken. -/
def Sealed (f : UInt64) (e : Endpoint) : Prop :=
  f < e.acceptedFence ∨ (f = e.acceptedFence ∧ e.isOpen = false)

/-- The endpoint is open for a binding, past idle, or closed for none. -/
structure Coherent (e : Endpoint) : Prop where
  binding : e.isOpen ↔ e.binding.isSome
  phase : e.isOpen ↔ e.phase ≠ .idle

/-- What a sequence of operations does to an endpoint. -/
structure Advanced (e e' : Endpoint) : Prop where
  provider : e'.provider = e.provider
  node : e'.node = e.node
  fence : e.acceptedFence ≤ e'.acceptedFence
  session : e.session ≤ e'.session
  keeps : ∀ f, e.Sealed f → e'.Sealed f

theorem Advanced.refl (e : Endpoint) : Advanced e e :=
  ⟨rfl, rfl, UInt64.le_refl _, UInt64.le_refl _, fun _ h => h⟩

theorem Advanced.trans {e e' e'' : Endpoint} (h : Advanced e e') (h' : Advanced e' e'') :
    Advanced e e'' where
  provider := h'.provider.trans h.provider
  node := h'.node.trans h.node
  fence := UInt64.le_trans h.fence h'.fence
  session := UInt64.le_trans h.session h'.session
  keeps f hf := h'.keeps f (h.keeps f hf)

theorem coherent_new (provider : ProviderId) (node : NodeId) (session : UInt64) :
    (new provider node session).Coherent := by
  constructor <;> simp [new]

theorem handshake_advanced (e : Endpoint) (session : UInt64) : Advanced e (e.handshake session) := by
  unfold handshake
  split
  · rename_i hlt
    exact ⟨rfl, rfl, UInt64.le_refl _, UInt64.le_of_lt hlt, fun _ h => h⟩
  · exact .refl e

theorem Coherent.handshake (h : e.Coherent) (session : UInt64) : (e.handshake session).Coherent := by
  unfold Endpoint.handshake
  split
  · exact ⟨h.binding, h.phase⟩
  · exact h

theorem Applied.advanced (h : Applied e op id fence e') : Advanced e e' := by
  cases h with
  | again | superseded => exact .refl e
  | activated => exact ⟨rfl, rfl, UInt64.le_refl _, UInt64.le_refl _, fun _ h => h⟩
  | opened hfence =>
    refine ⟨rfl, rfl, UInt64.le_of_lt hfence, UInt64.le_refl _, fun f hf => .inl ?_⟩
    rcases hf with hf | ⟨rfl, -⟩
    · exact UInt64.lt_trans hf hfence
    · exact hfence
  | closed _ hfence =>
    refine ⟨rfl, rfl, hfence, UInt64.le_refl _, fun f hf => ?_⟩
    have hle : f ≤ fence := by
      rcases hf with hf | ⟨rfl, -⟩
      · exact UInt64.le_trans (UInt64.le_of_lt hf) hfence
      · exact hfence
    rcases UInt64.lt_or_eq_of_le hle with hlt | heq
    · exact .inl hlt
    · exact .inr ⟨heq, rfl⟩

theorem Applied.coherent (h : Applied e op id fence e') (he : e.Coherent) : e'.Coherent := by
  cases h with
  | again | superseded => exact he
  | opened => constructor <;> simp
  | activated hopen => exact ⟨he.binding, by simp [hopen]⟩
  | closed => constructor <;> simp

/-- Closing seals. -/
theorem Applied.seals (h : Applied e op id fence e') (hop : op = .release ∨ op = .fence) :
    e'.Sealed fence := by
  cases h with
  | again | opened | activated => simp at hop
  | superseded _ hfence => exact .inl hfence
  | closed => exact .inr ⟨rfl, rfl⟩

/-- What is sealed does not open. -/
theorem Applied.not_sealed (h : Applied e op id fence e')
    (hop : op = .prepare ∨ op = .activate) {f : UInt64} (hf : fence ≤ f) : ¬e.Sealed f := by
  have hbelow : e.Sealed f → f ≤ e.acceptedFence := by
    rintro (hlt | ⟨rfl, -⟩)
    · exact UInt64.le_of_lt hlt
    · exact UInt64.le_refl _
  intro hsealed
  cases h with
  | again hopen | activated hopen =>
    rcases hsealed with hlt | ⟨-, hclosed⟩
    · exact UInt64.lt_irrefl _ (UInt64.lt_of_le_of_lt hf hlt)
    · simp [hopen] at hclosed
  | opened hfence =>
    have hle := UInt64.le_trans hf (hbelow hsealed)
    exact UInt64.lt_irrefl _ (UInt64.lt_of_lt_of_le hfence hle)
  | superseded hclose | closed hclose => rcases hclose with rfl | rfl <;> simp at hop

theorem after_apply_advanced : Advanced e (after (apply op id fence session) e) := by
  rcases @after_apply e op id fence session with h | h
  · rw [h]
    exact .refl e
  · exact h.advanced

theorem Coherent.after_apply (he : e.Coherent) :
    (after (apply op id fence session) e).Coherent := by
  rcases @Endpoint.after_apply e op id fence session with h | h
  · rw [h]
    exact he
  · exact h.coherent he

end Endpoint
end Archon.Kernel
