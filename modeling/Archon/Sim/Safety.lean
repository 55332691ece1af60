import Archon.Kernel.Effects
import Archon.Kernel.Endpoints
import Archon.Sim.World

/-! Safety of the control protocol. An endpoint only ever accepts fences the
cluster has issued for it, and a binding is closed in the cluster only after its
endpoint has sealed its fence; so an open endpoint always enforces a binding
whose capacity is still accounted for, whatever is lost, repeated or delayed. -/
namespace Archon.Sim
open Std Fallible Archon.Kernel Cluster

/-- The endpoint a binding is enforced at. -/
def endpointOf (binding : Binding) : EndpointKey := ⟨binding.provider, binding.node⟩

/-- Every published claim contract is exclusive. -/
def exclusiveContracts (graph : Graph) : Bool :=
  (OrdMap.vals graph.claimBindings).all fun dimensions =>
    (OrdMap.vals dimensions).all fun contract => contract.scope = .exclusive

/-- The acknowledgements that only delivery produces. -/
def acknowledges : Command → Bool
  | .recordBindingPrepared _ _ _ _ | .recordBindingActive _ _ _ | .recordBindingReleased _ _ _
  | .recordBindingFenced _ _ _ | .recordBindingFailed _ _ _ _ => true
  | _ => false

/-! What ties the endpoints to the cluster. -/

structure Safe (c : Cluster) (endpoints : OrdMap EndpointKey Endpoint) : Prop where
  exclusive : ∀ (id : BindingId) (binding : Binding), c.bindings[id]? = some binding →
    binding.scope = .exclusive
  within : FencesWithin c
  provider : ∀ (key : EndpointKey) e, endpoints[key]? = some e → e.provider = key.provider
  fenced : ∀ (key : EndpointKey) e, endpoints[key]? = some e →
    e.acceptedFence ≤ c.fenceWatermark key.provider key.node
  held : ∀ (key : EndpointKey) e, endpoints[key]? = some e → e.isOpen →
    ∃ (id : BindingId) (binding : Binding), e.binding = some id ∧ c.bindings[id]? = some binding ∧
      endpointOf binding = key ∧ binding.fence = e.acceptedFence ∧ binding.state.isClosed = false
  shut : ∀ (id : BindingId) (binding : Binding), c.bindings[id]? = some binding →
    binding.state.isClosed → ∃ e, endpoints[endpointOf binding]? = some e ∧ e.Sealed binding.fence

theorem safe_new : Safe .new ∅ := by
  constructor <;> simp [FencesWithin, Cluster.new]

section Step
variable {c c' : Cluster} {endpoints endpoints' : OrdMap EndpointKey Endpoint} {command : Command}

theorem Safe.congr (h : Safe c endpoints) (hbindings : c'.bindings = c.bindings)
    (hfences : c'.lastFence = c.lastFence) : Safe c' endpoints := by
  have hwatermark : ∀ provider node, c'.fenceWatermark provider node = c.fenceWatermark provider node := by
    intro provider node
    rw [fenceWatermark, fenceWatermark, hfences]
  refine ⟨?_, ?_, h.provider, ?_, ?_, ?_⟩
  · rw [hbindings]
    exact h.exclusive
  · intro id binding hbinding hscope
    rw [hwatermark]
    exact h.within id binding (hbindings ▸ hbinding) hscope
  · intro key e he
    rw [hwatermark]
    exact h.fenced key e he
  · rw [hbindings]
    exact h.held
  · rw [hbindings]
    exact h.shut

/-- A step of the cluster is safe when the bindings it closes are sealed. -/
theorem Safe.step (h : Safe c endpoints) (hroom : c.roomToFence (.apply command))
    (hstep : Step c command c')
    (hfresh : ∀ (id : BindingId) (binding : Binding), c.bindings[id]? = none →
      c'.bindings[id]? = some binding → binding.scope = .exclusive)
    (hclose : ∀ (id : BindingId) (before after : Binding), c.bindings[id]? = some before →
      c'.bindings[id]? = some after → before.state.isClosed = false → after.state.isClosed →
      ∃ e, endpoints[endpointOf before]? = some e ∧ e.Sealed before.fence) :
    Safe c' endpoints := by
  have hevolve := bindings_evolve hstep
  have hgrows : ∀ provider node, c.fenceWatermark provider node ≤ c'.fenceWatermark provider node :=
    fenceWatermark_mono fun key watermark => lastFence_step hroom hstep
  have hsame : ∀ {before after : Binding}, before.Moves after →
      endpointOf after = endpointOf before := by
    intro before after hmoves
    rw [endpointOf, endpointOf, hmoves.provider, hmoves.node]
  refine ⟨?_, fencesWithin_step h.within hroom hstep, h.provider, ?_, ?_, ?_⟩
  · intro id after hafter
    rcases hevolve.origin hafter with ⟨before, hbefore, hmoves⟩ | ⟨hnone, -⟩
    · rw [hmoves.scope]
      exact h.exclusive id before hbefore
    · exact hfresh id after hnone hafter
  · intro key e he
    exact UInt64.le_trans (h.fenced key e he) (hgrows _ _)
  · intro key e he hopen
    obtain ⟨id, before, hid, hbefore, hkey, hfence, hwas⟩ := h.held key e he hopen
    obtain ⟨after, hafter, hmoves⟩ := hevolve.kept id before hbefore
    refine ⟨id, after, hid, hafter, (hsame hmoves).trans hkey, hmoves.fence.trans hfence, ?_⟩
    -- a binding that closes here is sealed at its endpoint, and this one is open
    rw [← Bool.not_eq_true]
    intro hclosed
    obtain ⟨e', he', hsealed⟩ := hclose id before after hbefore hafter hwas hclosed
    rw [hkey, he] at he'
    cases he'
    rcases hsealed with hlt | ⟨-, hshut⟩
    · exact UInt64.lt_irrefl _ (hfence ▸ hlt)
    · simp [hopen] at hshut
  · intro id after hafter hclosed
    rcases hevolve.origin hafter with ⟨before, hbefore, hmoves⟩ | ⟨-, hmade⟩
    · rw [hsame hmoves, hmoves.fence]
      cases hwas : before.state.isClosed with
      | true => exact h.shut id before hbefore hwas
      | false => exact hclose id before after hbefore hafter hwas hclosed
    · rw [hmade.state] at hclosed
      cases hclosed

/-- A command that closes no binding and opens exclusive ones only. -/
structure Calm (c : Cluster) (command : Command) : Prop where
  silent : acknowledges command = false
  room : c.roomToFence (.apply command)
  contracts : ∀ (id : BindingId) lease node provider scope,
    command = .openBinding id lease node provider scope → exclusiveContracts c.graph

theorem contract_published {graph : Graph} {node : NodeId} {quantity : Quantity}
    {contract : ClaimBinding} (h : graph.claimBindingForQuantity node quantity = .ok contract) :
    ∃ dimension, graph.claimBinding node dimension = some contract := by
  simp only [Graph.claimBindingForQuantity, check_bind_ok, okOr_ok] at h
  obtain ⟨_, _, selected, hselected, hsome⟩ := h
  refine @foldlM_invariant _ _ _ (graph.selectClaimBinding node) (fun selected =>
    ∀ contract, selected = some contract → ∃ d, graph.claimBinding node d = some contract)
    ?_ _ _ _ hselected (by simp) contract hsome
  intro selected entry next hnext hinv
  unfold Graph.selectClaimBinding at hnext
  split at hnext
  · cases hnext
    exact hinv
  · simp only [check_bind_ok, okOr_ok] at hnext
    obtain ⟨found, hfound, hnext⟩ := hnext
    cases selected with
    | some existing =>
      simp only [check_bind_ok, check_pure_ok] at hnext
      obtain ⟨_, _, rfl⟩ := hnext
      exact hinv
    | none =>
      cases hnext
      rintro _ ⟨⟩
      exact ⟨_, hfound⟩

theorem contract_exclusive {graph : Graph} (h : exclusiveContracts graph) {node : NodeId}
    {dimension : CapacityDimension} {contract : ClaimBinding}
    (hcontract : graph.claimBinding node dimension = some contract) :
    contract.scope = .exclusive := by
  obtain ⟨dimensions, hnode, hdimension⟩ := Option.bind_eq_some_iff.mp hcontract
  simp only [exclusiveContracts, List.all_eq_true, decide_eq_true_eq] at h
  exact h dimensions (OrdMap.mem_vals.mpr ⟨node, hnode⟩) contract
    (OrdMap.mem_vals.mpr ⟨dimension, hdimension⟩)

theorem Safe.calm (h : Safe c endpoints) (hcalm : Calm c command) (hstep : Step c command c') :
    Safe c' endpoints := by
  refine h.step hcalm.room hstep ?_ ?_
  · intro id binding hnone hbinding
    have hcommand := ((bindings_evolve hstep).made id binding hnone hbinding).command
    have hcontracts := hcalm.contracts _ _ _ _ _ hcommand
    subst hcommand
    cases hstep with
    | bind _ _ _ _ _ hrequired _ hscope =>
      obtain ⟨dimension, hpublished⟩ := contract_published hrequired
      exact hscope ▸ contract_exclusive hcontracts hpublished
    | retry => simp [hnone] at hbinding
    | install _ h => cases h
    | annotate h => cases h
    | enter _ _ h => cases h
    | advance _ _ h => cases h
    | finish _ h => cases h
    | rebind _ h => cases h
    | restate h => cases h
  · intro id before after hbefore hafter hwas hclosed
    obtain ⟨machine, session, -, -, hcommand⟩ := closing_step hstep hbefore hwas hafter hclosed
    have hsilent := hcalm.silent
    rcases hcommand with rfl | rfl <;> cases hsilent

theorem Safe.record (h : Safe c endpoints) (hrecord : acknowledges command)
    (hstep : Step c command c')
    (hsealed : ∀ (id : BindingId) session (binding : Binding), c.bindings[id]? = some binding →
      command = .recordBindingReleased id session binding.fence ∨
        command = .recordBindingFenced id session binding.fence →
      ∃ e, endpoints[endpointOf binding]? = some e ∧ e.Sealed binding.fence) :
    Safe c' endpoints := by
  refine h.step ?_ hstep ?_ ?_
  · cases command with
    | openBinding => cases hrecord
    | _ => rfl
  · intro id binding hnone hbinding
    have hcommand := ((bindings_evolve hstep).made id binding hnone hbinding).command
    rw [hcommand] at hrecord
    cases hrecord
  · intro id before after hbefore hafter hwas hclosed
    obtain ⟨machine, session, -, -, hcommand⟩ := closing_step hstep hbefore hwas hafter hclosed
    exact hsealed id session before hbefore hcommand

/-! Changes at the endpoints. -/

/-- The endpoint stands as before for the same provider. -/
structure Echoes (e e' : Endpoint) : Prop where
  provider : e'.provider = e.provider
  isOpen : e'.isOpen = e.isOpen
  binding : e'.binding = e.binding
  fence : e'.acceptedFence = e.acceptedFence

theorem Echoes.refl (e : Endpoint) : Echoes e e := ⟨rfl, rfl, rfl, rfl⟩

theorem Echoes.trans {e e' e'' : Endpoint} (h : Echoes e e') (h' : Echoes e' e'') : Echoes e e'' :=
  ⟨h'.provider.trans h.provider, h'.isOpen.trans h.isOpen, h'.binding.trans h.binding,
    h'.fence.trans h.fence⟩

theorem echoes_handshake (e : Endpoint) (session : UInt64) : Echoes e (e.handshake session) := by
  unfold Endpoint.handshake
  split
  · exact ⟨rfl, rfl, rfl, rfl⟩
  · exact .refl e

/-- An endpoint that has accepted nothing. -/
structure Blank (key : EndpointKey) (e : Endpoint) : Prop where
  provider : e.provider = key.provider
  isOpen : e.isOpen = false
  fence : e.acceptedFence = 0

theorem Blank.echoed {key : EndpointKey} {e e' : Endpoint} (h : Blank key e) (he : Echoes e e') :
    Blank key e' :=
  ⟨he.provider.trans h.provider, he.isOpen.trans h.isOpen, he.fence.trans h.fence⟩

theorem Safe.echo (h : Safe c endpoints)
    (hechoes : OrdMap.Evolves (fun _ => Echoes) Blank endpoints endpoints') : Safe c endpoints' := by
  refine ⟨h.exclusive, h.within, ?_, ?_, ?_, ?_⟩
  · intro key e' he'
    rcases hechoes.origin he' with ⟨e, he, hecho⟩ | ⟨-, hblank⟩
    · exact hecho.provider.trans (h.provider key e he)
    · exact hblank.provider
  · intro key e' he'
    rcases hechoes.origin he' with ⟨e, he, hecho⟩ | ⟨-, hblank⟩
    · rw [hecho.fence]
      exact h.fenced key e he
    · simp [hblank.fence]
  · intro key e' he' hopen
    rcases hechoes.origin he' with ⟨e, he, hecho⟩ | ⟨-, hblank⟩
    · rw [hecho.binding, hecho.fence]
      exact h.held key e he (hecho.isOpen ▸ hopen)
    · simp [hblank.isOpen] at hopen
  · intro id binding hbinding hclosed
    obtain ⟨e, he, hsealed⟩ := h.shut id binding hbinding hclosed
    obtain ⟨e', he', hecho⟩ := hechoes.kept _ e he
    refine ⟨e', he', ?_⟩
    rw [Endpoint.Sealed, hecho.fence, hecho.isOpen]
    exact hsealed

/-- The endpoint an order meets: the stored one, or a new one. -/
def Meets (endpoints : OrdMap EndpointKey Endpoint) (key : EndpointKey) (e : Endpoint) : Prop :=
  endpoints[key]? = some e ∨ (endpoints[key]? = none ∧ Blank key e)

theorem Safe.meets_fenced (h : Safe c endpoints) {key : EndpointKey} {e : Endpoint}
    (he : Meets endpoints key e) : e.acceptedFence ≤ c.fenceWatermark key.provider key.node := by
  rcases he with he | ⟨-, hblank⟩
  · exact h.fenced key e he
  · simp [hblank.fence]

theorem Safe.meets_held (h : Safe c endpoints) {key : EndpointKey} {e : Endpoint}
    (he : Meets endpoints key e) (hopen : e.isOpen) :
    ∃ (id : BindingId) (binding : Binding), e.binding = some id ∧ c.bindings[id]? = some binding ∧
      endpointOf binding = key ∧ binding.fence = e.acceptedFence ∧
      binding.state.isClosed = false := by
  rcases he with he | ⟨-, hblank⟩
  · exact h.held key e he hopen
  · simp [hblank.isOpen] at hopen

theorem Safe.insert (h : Safe c endpoints) {key : EndpointKey} {e e' : Endpoint}
    (he : Meets endpoints key e) (hadvanced : e.Advanced e')
    (hfence : e'.acceptedFence ≤ c.fenceWatermark key.provider key.node)
    (hheld : e'.isOpen → ∃ (id : BindingId) (binding : Binding), e'.binding = some id ∧
      c.bindings[id]? = some binding ∧ endpointOf binding = key ∧
      binding.fence = e'.acceptedFence ∧ binding.state.isClosed = false) :
    Safe c (endpoints.insert key e') := by
  refine ⟨h.exclusive, h.within, ?_, ?_, ?_, ?_⟩
  · intro k found hfound
    rw [OrdMap.get_insert] at hfound
    split at hfound
    · rename_i hk
      subst hk
      cases hfound
      rw [hadvanced.provider]
      rcases he with he | ⟨-, hblank⟩
      · exact h.provider _ e he
      · exact hblank.provider
    · exact h.provider k found hfound
  · intro k found hfound
    rw [OrdMap.get_insert] at hfound
    split at hfound
    · rename_i hk
      subst hk
      cases hfound
      exact hfence
    · exact h.fenced k found hfound
  · intro k found hfound hopen
    rw [OrdMap.get_insert] at hfound
    split at hfound
    · rename_i hk
      subst hk
      cases hfound
      exact hheld hopen
    · exact h.held k found hfound hopen
  · intro id binding hbinding hclosed
    obtain ⟨stored, hstored, hsealed⟩ := h.shut id binding hbinding hclosed
    rw [OrdMap.get_insert]
    split
    · rename_i hk
      rw [← hk] at hstored
      rcases he with he | ⟨hnone, -⟩
      · rw [he] at hstored
        cases hstored
        exact ⟨e', rfl, hadvanced.keeps _ hsealed⟩
      · simp [hnone] at hstored
    · exact ⟨stored, hstored, hsealed⟩

/-- Carrying out an order about a binding of the cluster is safe. -/
theorem Safe.applied (h : Safe c endpoints) {order : EndpointOrder} {e e' : Endpoint}
    (hnames : order.Names c.bindings) (he : Meets endpoints ⟨order.provider, order.node⟩ e)
    (happlied : Endpoint.Applied e order.op order.binding order.fence e') :
    Safe c (endpoints.insert ⟨order.provider, order.node⟩ e') := by
  obtain ⟨binding, hbinding, hnode, hprovider, hfence⟩ := hnames
  have hissued : order.fence ≤ c.fenceWatermark order.provider order.node := by
    rw [← hnode, ← hprovider, ← hfence]
    exact h.within _ binding hbinding (h.exclusive _ binding hbinding)
  have hadvanced := happlied.advanced
  generalize order.op = op at happlied
  generalize horder : order.fence = fence at happlied hissued
  cases happlied with
  | again | superseded =>
    exact h.insert he hadvanced (h.meets_fenced he) (h.meets_held he)
  | activated =>
    have hfenced := h.meets_fenced he
    have hheld := @h.meets_held _ _ _ _ he
    exact h.insert he hadvanced hfenced hheld
  | closed => exact h.insert he hadvanced hissued (by simp)
  | opened hlt =>
    refine h.insert he hadvanced hissued fun _ => ⟨order.binding, binding, rfl, hbinding, ?_,
      hfence.trans horder, ?_⟩
    · rw [endpointOf, hprovider, hnode]
    -- a closed binding was sealed at this endpoint, so it would not have opened
    · rw [← Bool.not_eq_true]
      intro hclosed
      obtain ⟨stored, hstored, hsealed⟩ := h.shut _ binding hbinding hclosed
      rw [endpointOf, hprovider, hnode] at hstored
      rcases he with he | ⟨hnone, -⟩
      · rw [hstored] at he
        cases he
        rw [hfence, horder] at hsealed
        rcases hsealed with hbelow | ⟨rfl, -⟩
        · exact UInt64.lt_irrefl _ (UInt64.lt_trans hlt hbelow)
        · exact UInt64.lt_irrefl _ hlt
      · simp [hnone] at hstored

end Step

end Archon.Sim
