import Archon.Kernel.Dispatch
import Archon.Kernel.Effects

/-! Which commands set bindings up. Only an opening prepares a binding and only an activation
activates one, and the lease of the binding is then not over, unless the opening of a binding
that still prepares is repeated. -/
namespace Archon.Kernel
open Fallible

/-- The binding that an effect prepares or activates. -/
def Effect.setsUp : Effect → Option BindingId
  | .prepare binding _ _ _ _ _ | .activate binding _ _ _ _ _ => some binding
  | _ => none

namespace Cluster
variable {c c' : Cluster}

/-- The effects set no binding up. -/
def Idle (effects : List Effect) : Prop := ∀ effect ∈ effects, effect.setsUp = none

@[simp] theorem idle_nil : Idle [] := by
  simp [Idle]

@[simp] theorem idle_append {effects more : List Effect} :
    Idle (effects ++ more) ↔ Idle effects ∧ Idle more := by
  simp only [Idle, List.mem_append, or_imp, forall_and]

@[simp] theorem idle_fenceEffects (lease : LeaseId) : Idle (c.fenceEffects lease) := by
  simp [Idle, fenceEffects, bindingEffect, Effect.setsUp]

@[simp] theorem idle_releaseEffects (lease : LeaseId) : Idle (c.releaseEffects lease) := by
  simp [Idle, releaseEffects, bindingEffect, Effect.setsUp]

@[simp] theorem idle_fence (binding : Binding) : Idle [c.bindingEffect binding .fence] := by
  simp [Idle, bindingEffect, Effect.setsUp]

@[simp] theorem idle_release (binding : Binding) : Idle [c.bindingEffect binding .release] := by
  simp [Idle, bindingEffect, Effect.setsUp]

@[simp] theorem idle_reconcile (machine : NodeId) (session epoch : UInt64) (bindings : List BindingId) :
    Idle [.reconcile machine session epoch bindings] := by
  simp [Idle, Effect.setsUp]

theorem idle_cascade (keeps : LeaseState → Bool) (final : LeaseState) (ids : List LeaseId) :
    Yields c (cascade keeps final ids) fun effects _ => Idle effects := by
  intro effects t h
  obtain ⟨rfl, -⟩ := cascade_ok.mp h
  intro effect heffect
  obtain ⟨id, -, heffect⟩ := List.mem_flatMap.mp heffect
  exact idle_fenceEffects id effect heffect

theorem idle_revokeCascade (ids : List LeaseId) :
    Yields c (revokeCascade ids) fun effects _ => Idle effects := by
  induction ids generalizing c with
  | nil => simp [revokeCascade]
  | cons child rest ih =>
    simp only [revokeCascade, yields_get_bind]
    cases c.leases[child]? with
    | none => exact ih
    | some lease =>
      simp only [yields_modify_bind, yields_get_bind]
      refine yields_bind ih fun effects t hidle => ?_
      simp only [yields_pure, idle_append, idle_fenceEffects, true_and]
      exact hidle

theorem idle_failLease (id : LeaseId) (reason : String) :
    Yields c (failLease id reason) fun effects _ => Idle effects := by
  simp only [failLease, yields_get_bind]
  refine yields_bind (idle_cascade _ _ _) fun effects t hidle => ?_
  simp only [yields_get_bind, yields_attempt_bind, yields_ite, yields_pure, yields_modify_bind,
    idle_append]
  exact fun _ _ => ⟨fun _ => hidle, fun _ => ⟨hidle, idle_fenceEffects id⟩⟩

theorem idle_revokeLease (id : LeaseId) : Yields c (revokeLease id) fun effects _ => Idle effects := by
  simp only [revokeLease, yields_get_bind]
  refine yields_bind (idle_revokeCascade _) fun effects t hidle => ?_
  simp only [yields_get_bind, yields_attempt_bind, yields_pure, yields_modify_bind, idle_append]
  exact fun _ _ => ⟨hidle, idle_fenceEffects id⟩

theorem idle_expireLease (id : LeaseId) : Yields c (expireLease id) fun effects _ => Idle effects := by
  simp only [expireLease, yields_get_bind, yields_attempt_bind, yields_ite, yields_pure]
  refine fun _ _ => ⟨fun _ => idle_fenceEffects id, fun _ _ _ _ _ => ?_⟩
  refine yields_bind (idle_cascade _ _ _) fun effects t hidle => ?_
  simp only [yields_get_bind, yields_attempt_bind, yields_pure, yields_modify_bind, idle_append]
  exact fun _ _ => ⟨hidle, idle_fenceEffects id⟩

theorem idle_releaseLease (id : LeaseId) : Yields c (releaseLease id) fun effects _ => Idle effects := by
  simp only [releaseLease, yields_get_bind, yields_attempt_bind, yields_ite, yields_pure,
    yields_modify_bind]
  exact fun _ _ _ _ => ⟨fun _ => idle_releaseEffects id, fun _ _ _ => idle_releaseEffects id⟩

theorem idle_completeLease (id : LeaseId) (code : Int32) :
    Yields c (completeLease id code) fun effects _ => Idle effects := by
  simp only [completeLease, yields_get_bind, yields_attempt_bind, yields_ite, yields_pure]
  refine fun _ _ => ⟨fun _ => idle_fenceEffects id, fun _ _ _ => ?_⟩
  refine yields_bind (idle_cascade _ _ _) fun effects t hidle => ?_
  simp only [yields_get_bind, yields_attempt_bind, yields_pure, yields_modify_bind, idle_append]
  exact fun _ _ => ⟨hidle, idle_fenceEffects id⟩

/-- The commands that set bindings up. -/
def setsBindingUp : Command → Bool
  | .openBinding .. | .activateBinding _ => true
  | _ => false

theorem idle_dispatch {command : Command} (hplain : setsBindingUp command = false) :
    Yields c (dispatch command) fun effects _ => Idle effects := by
  cases command with
  | openBinding | activateBinding => cases hplain
  | failLease id reason => exact idle_failLease id reason
  | revokeLease id => exact idle_revokeLease id
  | expireLease id => exact idle_expireLease id
  | completeLease id code => exact idle_completeLease id code
  | reserveLease id =>
    simp only [dispatch, reserveLease, yields_get_bind, yields_attempt_bind]
    intro _ _
    cases c.leases[id]? <;> simp
  | openLease id =>
    simp only [dispatch, openLease, yields_get_bind, yields_attempt_bind]
    intro _ _
    cases c.leases[id]? <;> simp
  | releaseLease id => exact idle_releaseLease id
  | fenceBinding => simp [dispatch, fenceBinding]
  | failBinding =>
    simp only [dispatch, failBinding, yields_get_bind, yields_attempt_bind, yields_ite, yields_pure,
      yields_modify_bind, idle_nil]
    exact fun _ _ => ⟨fun _ => trivial, fun _ after _ => idle_fence after⟩
  | releaseBinding => simp [dispatch, releaseBinding]
  | recordBindingFailed =>
    simp only [dispatch, recordFailed, yields_get_bind, yields_attempt_bind, yields_pure, yields_modify_bind]
    exact fun binding _ _ _ => idle_fenceEffects binding.lease
  | applyGraph => simp [dispatch, applyGraph, installResourceGraph]
  | applyResourceFacts => simp [dispatch, applyResourceFacts, installResourceGraph]
  | applyProviderFacts => simp [dispatch, applyProviderFacts, installResourceGraph]
  | adoptFactWriters => simp [dispatch, adoptFactWriters]
  | promoteLease => simp [dispatch, promoteLease]
  | activateLease => simp [dispatch, activateLease]
  | renewLease => simp [dispatch, renewLease]
  | recordBindingPrepared => simp [dispatch, recordPrepared]
  | recordBindingActive => simp [dispatch, recordActive]
  | recordBindingReleased => simp [dispatch, recordReleased, recordClosed]
  | recordBindingFenced => simp [dispatch, recordFenced, recordClosed]
  | setAgentSession =>
    simp only [dispatch, setAgentSession, yields_get_bind, yields_attempt_bind, yields_modify_bind,
      yields_pure, idle_reconcile, implies_true]
  | setNodeHealth => simp [dispatch, setNodeHealth]
  | setNodeState => simp [dispatch, setNodeState]
  | rebindSession => simp [dispatch, rebindSession]
  | advanceEndpointFence => simp [dispatch, advanceEndpointFence]
  | quarantineNode => simp [dispatch, quarantineNode, setNodeState]
  | unquarantineNode => simp [dispatch, unquarantineNode, setNodeState]

/-- A binding is set up for a lease that is not over, or its opening is repeated. -/
inductive SetsUp (c c' : Cluster) (id : BindingId) : Command → Prop where
  | live {command : Command} {binding : Binding} {lease : Lease} (hbinding : c'.bindings[id]? = some binding)
      (hlease : c'.leases[binding.lease]? = some lease)
      (hstate : lease.state = .preparing ∨ lease.state = .active) : SetsUp c c' id command
  | repeated {binding : Binding} (hbinding : c.bindings[id]? = some binding)
      (hstate : binding.state = .preparing) (hbindings : c'.bindings = c.bindings)
      (hleases : c'.leases = c.leases) : SetsUp c c' id (.openBinding id lease node provider scope)

theorem setsUp_openBinding {id named : BindingId} {effect : Effect}
    (hkeys : BindingsKeyed c) (h : openBinding named leaseId node provider scope c = .ok effects c')
    (heffect : effect ∈ effects) (hid : effect.setsUp = some id) :
    SetsUp c c' id (.openBinding named leaseId node provider scope) := by
  simp only [openBinding, bind_ok, get_ok] at h
  obtain ⟨_, _, ⟨rfl, rfl⟩, h⟩ := h
  cases hbinding : c.bindings[named]? with
  | some existing =>
    simp [hbinding] at h
    obtain ⟨-, ⟨hstate, rfl, rfl⟩ | ⟨-, rfl, rfl⟩⟩ := h
    · rw [List.mem_singleton.mp heffect] at hid
      cases hid
      rw [hkeys named existing hbinding]
      exact .repeated hbinding hstate rfl rfl
    · cases heffect
  | none =>
    simp [hbinding, issueFence_ok] at h
    obtain ⟨found, hlease, hstate, -, claim, -, required, -, -, -, machine, -, session, -, -, rfl, rfl⟩ := h
    rw [List.mem_singleton.mp heffect] at hid
    cases hid
    exact .live Std.ExtTreeMap.getElem?_insert_self hlease (.inl hstate)

theorem setsUp_activateBinding {id named : BindingId} {effect : Effect} (hkeys : BindingsKeyed c)
    (h : activateBinding named c = .ok effects c') (heffect : effect ∈ effects)
    (hid : effect.setsUp = some id) : SetsUp c c' id (.activateBinding named) := by
  simp [activateBinding] at h
  obtain ⟨binding, hbinding, lease, hlease, hactive, ⟨-, rfl, rfl⟩ | ⟨-, -, rfl, rfl⟩⟩ := h
  · obtain rfl := hkeys named binding hbinding
    rw [List.mem_singleton.mp heffect] at hid
    cases hid
    exact .live hbinding hlease (.inr hactive)
  · obtain rfl := hkeys named binding hbinding
    rw [List.mem_singleton.mp heffect] at hid
    cases hid
    have hafter : (c.bindings.modify binding.id fun binding => { binding with state := .active })[
        binding.id]? = some { binding with state := .active } := by
      rw [OrdMap.get_modify, if_pos rfl, hbinding]
      rfl
    exact .live hafter hlease (.inr hactive)

theorem setsUp_of_dispatch {command : Command} {id : BindingId} {effect : Effect} (hkeys : BindingsKeyed c)
    (h : dispatch command c = .ok effects c') (heffect : effect ∈ effects)
    (hid : effect.setsUp = some id) : SetsUp c c' id command := by
  cases hplain : setsBindingUp command with
  | false =>
    rw [idle_dispatch hplain effects c' h effect heffect] at hid
    cases hid
  | true =>
    cases command with
    | openBinding => exact setsUp_openBinding hkeys h heffect hid
    | activateBinding => exact setsUp_activateBinding hkeys h heffect hid
    | _ => cases hplain

theorem setsUp_of_apply {command : Command} {id : BindingId} {effect : Effect} (hkeys : BindingsKeyed c)
    (h : apply command c = .ok effects c') (heffect : effect ∈ effects) (hid : effect.setsUp = some id) :
    SetsUp c c' id command := by
  simp only [apply, bind_ok, modify_ok, pure_ok] at h
  obtain ⟨_, next, hdispatch, _, _, rfl, rfl, rfl⟩ := h
  cases setsUp_of_dispatch hkeys hdispatch heffect hid with
  | live hbinding hlease hstate => exact .live hbinding hlease hstate
  | repeated hbinding hstate hbindings hleases => exact .repeated hbinding hstate hbindings hleases

end Cluster
end Archon.Kernel
