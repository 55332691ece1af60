import Archon.Kernel.Run
import Archon.Kernel.Endpoint

/-! The effects a command returns. Each one but a reconcile is about a binding
of the cluster and carries its node, its provider and its fence, which the
binding keeps for life; so an effect stays about the same endpoint generation
however late it arrives. -/
namespace Archon.Kernel
open Fallible

/-- An order is about a binding of the table. -/
def EndpointOrder.Names (bindings : OrdMap BindingId Binding) (order : EndpointOrder) : Prop :=
  ∃ binding, bindings[order.binding]? = some binding ∧ binding.node = order.node ∧
    binding.provider = order.provider ∧ binding.fence = order.fence

/-- Whatever an effect asks of an endpoint is about a binding of the table. -/
def Effect.Names (bindings : OrdMap BindingId Binding) (effect : Effect) : Prop :=
  ∀ order, effect.order = some order → order.Names bindings

namespace Cluster
variable {c c' : Cluster}

/-- Bindings that only move. -/
def BindingsKept (c c' : Cluster) : Prop :=
  ∀ (id : BindingId) (binding : Binding), c.bindings[id]? = some binding →
    ∃ next, c'.bindings[id]? = some next ∧ binding.Moves next

theorem BindingsKept.refl (c : Cluster) : BindingsKept c c :=
  fun _ binding h => ⟨binding, h, .refl binding⟩

theorem BindingsKept.trans {c'' : Cluster} (h : BindingsKept c c') (h' : BindingsKept c' c'') :
    BindingsKept c c'' := by
  intro id binding hbinding
  obtain ⟨next, hnext, hmoves⟩ := h id binding hbinding
  obtain ⟨last, hlast, hmoves'⟩ := h' id next hnext
  exact ⟨last, hlast, hmoves.trans hmoves'⟩

theorem bindingsKept_of_step {command : Command} (hstep : Step c command c') : BindingsKept c c' :=
  (bindings_evolve hstep).kept

theorem BindingsKept.names (h : BindingsKept c c') {effect : Effect}
    (heffect : effect.Names c.bindings) : effect.Names c'.bindings := by
  intro order horder
  obtain ⟨binding, hbinding, hnode, hprovider, hfence⟩ := heffect order horder
  obtain ⟨next, hnext, hmoves⟩ := h _ binding hbinding
  exact ⟨next, hnext, hmoves.node.trans hnode, hmoves.provider.trans hprovider,
    hmoves.fence.trans hfence⟩

/-! The effects of each operation. -/

/-- The effects are about bindings of the cluster. -/
def Named (effects : List Effect) (c : Cluster) : Prop :=
  ∀ effect ∈ effects, effect.Names c.bindings

@[simp] theorem named_nil (c : Cluster) : Named [] c := by
  simp [Named]

@[simp] theorem named_singleton {effect : Effect} :
    Named [effect] c ↔ effect.Names c.bindings := by
  simp [Named]

@[simp] theorem named_append {effects more : List Effect} :
    Named (effects ++ more) c ↔ Named effects c ∧ Named more c := by
  simp only [Named, List.mem_append]
  constructor
  · exact fun h => ⟨fun e he => h e (.inl he), fun e he => h e (.inr he)⟩
  · rintro ⟨h, hmore⟩ e (he | he)
    · exact h e he
    · exact hmore e he

/-- The kinds of effect a binding can have. -/
def BindingKind (kind : BindingId → NodeId → ProviderId → UInt64 → UInt64 → UInt64 → Effect) : Prop :=
  kind ∈ [Effect.prepare, Effect.activate, Effect.release, Effect.fence]

theorem bindingEffect_names
    {kind : BindingId → NodeId → ProviderId → UInt64 → UInt64 → UInt64 → Effect}
    (hkind : BindingKind kind) {binding next : Binding} {bindings : OrdMap BindingId Binding}
    (hnext : bindings[binding.id]? = some next) (hnode : next.node = binding.node)
    (hprovider : next.provider = binding.provider) (hfence : next.fence = binding.fence) :
    (c.bindingEffect binding kind).Names bindings := by
  intro order horder
  have hfields : order.binding = binding.id ∧ order.node = binding.node ∧
      order.provider = binding.provider ∧ order.fence = binding.fence := by
    simp only [BindingKind, List.mem_cons, List.not_mem_nil, or_false] at hkind
    rcases hkind with rfl | rfl | rfl | rfl
    all_goals
      cases horder
      exact ⟨rfl, rfl, rfl, rfl⟩
  obtain ⟨hid, hnode', hprovider', hfence'⟩ := hfields
  exact ⟨next, hid ▸ hnext, hnode.trans hnode'.symm, hprovider.trans hprovider'.symm,
    hfence.trans hfence'.symm⟩

/-- Every binding is stored under its own id. -/
def BindingsKeyed (c : Cluster) : Prop :=
  ∀ (id : BindingId) (binding : Binding), c.bindings[id]? = some binding → binding.id = id

section Keyed
variable (hkeys : BindingsKeyed c)
include hkeys

theorem named_binding {kind : BindingId → NodeId → ProviderId → UInt64 → UInt64 → UInt64 → Effect}
    (hkind : BindingKind kind) {id : BindingId} {binding : Binding}
    (hbinding : c.bindings[id]? = some binding) : Named [c.bindingEffect binding kind] c := by
  rw [← hkeys id binding hbinding] at hbinding
  exact named_singleton.mpr (bindingEffect_names hkind hbinding rfl rfl rfl)

theorem named_openBindings
    {kind : BindingId → NodeId → ProviderId → UInt64 → UInt64 → UInt64 → Effect}
    (hkind : BindingKind kind) (lease : LeaseId) :
    Named ((c.openBindingsOf lease).map fun binding => c.bindingEffect binding kind) c := by
  intro effect heffect
  obtain ⟨binding, hbinding, rfl⟩ := List.mem_map.mp heffect
  obtain ⟨id, hid⟩ := OrdMap.mem_vals.mp (List.mem_filter.mp hbinding).1
  rw [← hkeys id binding hid] at hid
  exact bindingEffect_names hkind hid rfl rfl rfl

theorem named_fenceEffects (lease : LeaseId) : Named (c.fenceEffects lease) c :=
  named_openBindings hkeys (by simp [BindingKind]) lease

theorem named_releaseEffects (lease : LeaseId) : Named (c.releaseEffects lease) c :=
  named_openBindings hkeys (by simp [BindingKind]) lease

theorem yields_cascade (keeps : LeaseState → Bool) (final : LeaseState) (ids : List LeaseId) :
    Yields c (cascade keeps final ids) fun effects t => t.bindings = c.bindings ∧ Named effects t := by
  intro effects t h
  obtain ⟨rfl, rfl⟩ := cascade_ok.mp h
  refine ⟨rfl, fun effect heffect => ?_⟩
  obtain ⟨id, -, heffect⟩ := List.mem_flatMap.mp heffect
  exact named_fenceEffects hkeys id effect heffect

theorem yields_revokeCascade (ids : List LeaseId) :
    Yields c (revokeCascade ids) fun effects t => t.bindings = c.bindings ∧ Named effects t := by
  induction ids generalizing c with
  | nil => simp [revokeCascade]
  | cons child rest ih =>
    simp only [revokeCascade, yields_get_bind]
    cases c.leases[child]? with
    | none => exact ih hkeys
    | some lease =>
      simp only [yields_modify_bind, yields_get_bind]
      refine yields_bind (ih hkeys) fun effects t ⟨hsame, hnamed⟩ => ?_
      simp only [yields_pure, named_append]
      refine ⟨hsame, fun effect heffect => ?_, hnamed⟩
      rw [hsame]
      exact named_fenceEffects hkeys child effect heffect

theorem yields_failLease (id : LeaseId) (reason : String) : Yields c (failLease id reason) Named := by
  simp only [failLease, yields_get_bind]
  refine yields_bind (yields_cascade hkeys _ _ _) ?_
  rintro effects t ⟨hsame, hnamed⟩
  have hkeys' : BindingsKeyed t := fun i b hb => hkeys i b (hsame ▸ hb)
  simp only [yields_get_bind, yields_attempt_bind, yields_ite, yields_pure, yields_modify_bind,
    named_append]
  exact fun _ _ => ⟨fun _ => hnamed, fun _ => ⟨hnamed, named_fenceEffects hkeys' id⟩⟩

theorem yields_releaseLease {id : LeaseId} : Yields c (releaseLease id) Named := by
  simp only [releaseLease, yields_get_bind, yields_attempt_bind, yields_ite, yields_pure,
    yields_modify_bind]
  exact fun _ _ _ _ => ⟨fun _ => named_releaseEffects hkeys id,
    fun _ _ _ => named_releaseEffects hkeys id⟩

theorem yields_revokeLease {id : LeaseId} : Yields c (revokeLease id) Named := by
  simp only [revokeLease, yields_get_bind]
  refine yields_bind (yields_revokeCascade hkeys _) fun effects t ⟨hsame, hnamed⟩ => ?_
  have hkeys' : BindingsKeyed t := fun i b hb => hkeys i b (hsame ▸ hb)
  simp only [yields_get_bind, yields_attempt_bind, yields_pure, yields_modify_bind, named_append]
  exact fun _ _ => ⟨hnamed, named_fenceEffects hkeys' id⟩

theorem yields_expireLease {id : LeaseId} : Yields c (expireLease id) Named := by
  simp only [expireLease, yields_get_bind, yields_attempt_bind, yields_ite, yields_pure]
  refine fun _ _ => ⟨fun _ => named_fenceEffects hkeys id, fun _ _ _ _ _ => ?_⟩
  refine yields_bind (yields_cascade hkeys _ _ _) ?_
  rintro effects t ⟨hsame, hnamed⟩
  have hkeys' : BindingsKeyed t := fun i b hb => hkeys i b (hsame ▸ hb)
  simp only [yields_get_bind, yields_attempt_bind, yields_pure, yields_modify_bind, named_append]
  exact fun _ _ => ⟨hnamed, named_fenceEffects hkeys' id⟩

theorem yields_completeLease {id : LeaseId} {code : Int32} :
    Yields c (completeLease id code) Named := by
  simp only [completeLease, yields_get_bind, yields_attempt_bind, yields_ite, yields_pure]
  refine fun _ _ => ⟨fun _ => named_fenceEffects hkeys id, fun _ _ _ => ?_⟩
  refine yields_bind (yields_cascade hkeys _ _ _) ?_
  rintro effects t ⟨hsame, hnamed⟩
  have hkeys' : BindingsKeyed t := fun i b hb => hkeys i b (hsame ▸ hb)
  simp only [yields_get_bind, yields_attempt_bind, yields_pure, yields_modify_bind, named_append]
  exact fun _ _ => ⟨hnamed, named_fenceEffects hkeys' id⟩

theorem keyed_modify {id : BindingId} {f : Binding → Binding} {t : Cluster}
    (ht : t.bindings = c.bindings.modify id f) (hf : ∀ b : Binding, (f b).id = b.id) :
    BindingsKeyed t := by
  intro i b hb
  rw [ht, OrdMap.get_modify] at hb
  split at hb
  · obtain ⟨before, hbefore, rfl⟩ := Option.map_eq_some_iff.mp hb
    rw [hf, hkeys i before hbefore]
  · exact hkeys i b hb

theorem yields_openBinding {id : BindingId} {lease : LeaseId} {node : NodeId}
    {provider : ProviderId} {scope : BindingScope} :
    Yields c (openBinding id lease node provider scope) Named := by
  simp only [openBinding, yields_get_bind]
  cases hbinding : c.bindings[id]? with
  | some existing =>
    simp only [yields_ite, yields_pure, named_nil, yields_throw, implies_true, and_true]
    exact fun _ _ => named_binding hkeys (by simp [BindingKind]) hbinding
  | none =>
    simp only [yields_attempt_bind]
    intro _ _ _ _ _ _ _ _ _ _ _ _ _ _ _ _ _ _ _ _
    refine yields_bind (fun _ _ h => h) fun fence t _ => ?_
    simp only [yields_get_bind, yields_modify_bind, yields_pure, named_singleton]
    exact bindingEffect_names (by simp [BindingKind]) (by rw [OrdMap.get_insert, if_pos rfl])
      rfl rfl rfl

theorem yields_activateBinding {id : BindingId} : Yields c (activateBinding id) Named := by
  simp only [activateBinding, yields_get_bind, yields_attempt_bind, okOr_ok, yields_ite, yields_pure,
    yields_modify_bind]
  intro binding hbinding _ _ _ _
  refine ⟨fun _ => named_binding hkeys (by simp [BindingKind]) hbinding, fun _ _ _ => ?_⟩
  obtain rfl := hkeys id binding hbinding
  have hafter : (c.bindings.modify binding.id fun binding => { binding with state := .active })[
      binding.id]? = some { binding with state := .active } := by
    rw [OrdMap.get_modify, if_pos rfl, hbinding]
    rfl
  exact named_singleton.mpr (bindingEffect_names (by simp [BindingKind]) hafter rfl rfl rfl)

theorem yields_fenceBinding {id : BindingId} : Yields c (fenceBinding id) Named := by
  simp only [fenceBinding, yields_get_bind, yields_attempt_bind, okOr_ok, yields_ite, yields_pure,
    named_nil]
  intro binding hbinding
  have hnamed : Named [c.bindingEffect binding .fence] c :=
    named_binding hkeys (by simp [BindingKind]) hbinding
  exact ⟨fun _ => hnamed, fun _ => ⟨fun _ => trivial, fun _ => hnamed⟩⟩

theorem yields_failBinding (id : BindingId) (reason : String) :
    Yields c (failBinding id reason) Named := by
  simp only [failBinding, yields_get_bind, yields_attempt_bind, okOr_ok, yields_ite, yields_pure,
    yields_modify_bind, named_nil]
  intro _ _
  refine ⟨fun _ => trivial, fun _ after hafter => ?_⟩
  exact named_binding (keyed_modify hkeys rfl (by simp)) (by simp [BindingKind]) hafter

theorem yields_releaseBinding {id : BindingId} : Yields c (releaseBinding id) Named := by
  simp only [releaseBinding, yields_get_bind, yields_attempt_bind, okOr_ok, yields_ite, yields_pure,
    named_nil]
  intro binding hbinding
  have hnamed : Named [c.bindingEffect binding .release] c :=
    named_binding hkeys (by simp [BindingKind]) hbinding
  exact ⟨fun _ => hnamed, fun _ => ⟨fun _ => trivial, fun _ => hnamed⟩⟩

theorem yields_recordFailed (id : BindingId) (session : UInt64) (reason : String) (fence : UInt64) :
    Yields c (recordFailed id session reason fence) Named := by
  simp only [recordFailed, yields_get_bind, yields_attempt_bind, yields_pure, yields_modify_bind]
  intro binding _ _ _
  exact named_fenceEffects (keyed_modify hkeys rfl (by simp)) binding.lease

/-- Accepted commands return effects about bindings of the cluster they leave. -/
theorem yields_dispatch (command : Command) : Yields c (dispatch command) Named := by
  cases command with
  | failLease id reason => exact yields_failLease hkeys id reason
  | releaseLease => exact yields_releaseLease hkeys
  | completeLease => exact yields_completeLease hkeys
  | revokeLease => exact yields_revokeLease hkeys
  | expireLease => exact yields_expireLease hkeys
  | openBinding => exact yields_openBinding hkeys
  | activateBinding => exact yields_activateBinding hkeys
  | fenceBinding => exact yields_fenceBinding hkeys
  | failBinding id reason => exact yields_failBinding hkeys id reason
  | releaseBinding => exact yields_releaseBinding hkeys
  | recordBindingFailed id session reason fence =>
    exact yields_recordFailed hkeys id session reason fence
  | applyGraph => simp [dispatch, applyGraph, installResourceGraph]
  | applyResourceFacts => simp [dispatch, applyResourceFacts, installResourceGraph]
  | applyProviderFacts => simp [dispatch, applyProviderFacts, installResourceGraph]
  | adoptFactWriters => simp [dispatch, adoptFactWriters]
  | reserveLease id =>
    simp only [dispatch, reserveLease, yields_get_bind, yields_attempt_bind]
    intro _ _
    cases c.leases[id]? <;> simp
  | promoteLease => simp [dispatch, promoteLease]
  | openLease id =>
    simp only [dispatch, openLease, yields_get_bind, yields_attempt_bind]
    intro _ _
    cases c.leases[id]? <;> simp
  | activateLease => simp [dispatch, activateLease]
  | renewLease => simp [dispatch, renewLease]
  | recordBindingPrepared => simp [dispatch, recordPrepared]
  | recordBindingActive => simp [dispatch, recordActive]
  | recordBindingReleased => simp [dispatch, recordReleased, recordClosed]
  | recordBindingFenced => simp [dispatch, recordFenced, recordClosed]
  | setAgentSession =>
    simp only [dispatch, setAgentSession, yields_get_bind, yields_attempt_bind, yields_modify_bind,
      yields_pure, named_singleton, Effect.Names, Effect.order]
    simp
  | setNodeHealth => simp [dispatch, setNodeHealth]
  | setNodeState => simp [dispatch, setNodeState]
  | rebindSession => simp [dispatch, rebindSession]
  | advanceEndpointFence => simp [dispatch, advanceEndpointFence]
  | quarantineNode => simp [dispatch, quarantineNode, setNodeState]
  | unquarantineNode => simp [dispatch, unquarantineNode, setNodeState]

end Keyed
end Cluster
end Archon.Kernel
