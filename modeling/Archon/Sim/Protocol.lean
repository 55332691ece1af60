import Archon.Sim.Steady

/-! Runs of the control protocol as its environment drives it: any commands but
acknowledgements, in any order with deliveries, losses, repetitions and restarts. -/
namespace Archon.Sim
open Std Fallible Archon.Kernel Cluster

namespace World
variable {w w' : World} {command : Command}

/-- What the environment may do in a world: any command but an acknowledgement,
and messages about bindings of the cluster. -/
def Permitted (w : World) : WorldEvent → Prop
  | .apply command => Calm w.cluster command
  | .inject effect => effect.Names w.cluster.bindings
  | _ => True

theorem steady_perform {event : WorldEvent} (h : Permitted w event) : Steady w (perform event) := by
  cases event with
  | apply command => exact (steady_apply (tolerates_of_calm h)).map _
  | deliverOne => exact steady_deliverOne.map _
  | dropOne => exact steady_dropOne.map _
  | inject effect => exact steady_dispatch h
  | registerAgent machine => exact (steady_registerAgent machine).map _
  | restartAgent machine => exact (steady_restartAgent machine).map _
  | restartController => exact steady_restartController
  | setNow now =>
    intro h
    exact ⟨⟨replay_concat h.replays rfl, h.safe.congr rfl rfl, h.named⟩, BindingsKept.refl w.cluster⟩
  | setAgreement agreed =>
    intro h
    exact ⟨⟨replay_concat h.replays rfl, h.safe.congr rfl rfl, h.named⟩, BindingsKept.refl w.cluster⟩
  | advanceEpoch =>
    intro h
    exact ⟨⟨replay_concat h.replays rfl, h.safe.congr rfl rfl, h.named⟩, BindingsKept.refl w.cluster⟩

/-- Watermarks below the last fence. -/
def roomyFences (c : Cluster) : Bool :=
  (OrdMap.vals c.lastFence).all fun watermark => watermark < lastFenceValue

/-- A run of the world as its environment drives it: no acknowledgement but by
delivery, every injected effect was in flight before, and in every state reached
each contract is exclusive and each watermark below the last fence. -/
structure Driven (events : List WorldEvent) : Prop where
  silent : ∀ command, .apply command ∈ events → acknowledges command = false
  emitted : ∀ before effect, before ++ [.inject effect] <+: events →
    ∃ earlier, earlier <+: before ∧ effect ∈ (run earlier).pending
  contracts : ∀ before, before <+: events → exclusiveContracts (run before).cluster.graph
  fences : ∀ before, before <+: events → roomyFences (run before).cluster

theorem Driven.of_part {before events : List WorldEvent} (h : Driven events)
    (hpart : before <+: events) : Driven before where
  silent command hmem := h.silent command (hpart.subset hmem)
  emitted earlier effect hearlier := h.emitted earlier effect (hearlier.trans hpart)
  contracts earlier hearlier := h.contracts earlier (hearlier.trans hpart)
  fences earlier hearlier := h.fences earlier (hearlier.trans hpart)

theorem calm_of_driven {c : Cluster} (hsilent : acknowledges command = false)
    (hcontracts : exclusiveContracts c.graph) (hfences : roomyFences c) : Calm c command := by
  refine ⟨hsilent, ?_, fun _ _ _ _ _ _ => hcontracts⟩
  have hbelow : ∀ provider node, c.fenceWatermark provider node < lastFenceValue := by
    intro provider node
    unfold fenceWatermark
    cases hkey : c.lastFence[(⟨provider, node⟩ : EndpointKey)]? with
    | none => decide
    | some watermark =>
      simp only [roomyFences, List.all_eq_true, decide_eq_true_eq] at hfences
      exact hfences watermark (OrdMap.mem_vals.mpr ⟨_, hkey⟩)
  unfold roomToFence
  split
  · simp [hbelow]
  · rfl

/-- The invariant holds, and everything ever emitted is still about a binding. -/
theorem inv_run (events : List WorldEvent) (h : Driven events) :
    Inv (run events) ∧ ∀ earlier, earlier <+: events →
      Named (run earlier).pending (run events).cluster := by
  induction events using List.reverseRecOn with
  | nil =>
    refine ⟨inv_new, fun earlier hearlier => ?_⟩
    rw [List.prefix_nil.mp hearlier]
    exact named_nil _
  | append_singleton events event ih =>
    have hpart : events <+: events ++ [event] := List.prefix_append _ _
    obtain ⟨hinv, hemitted⟩ := ih (h.of_part hpart)
    have hpermitted : Permitted (run events) event := by
      cases event with
      | apply command =>
        exact calm_of_driven (h.silent command (by simp)) (h.contracts events hpart)
          (h.fences events hpart)
      | inject effect =>
        obtain ⟨earlier, hearlier, hpending⟩ := h.emitted events effect List.prefix_rfl
        exact hemitted earlier hearlier effect hpending
      | _ => trivial
    have hrun : run (events ++ [event]) = after (perform event) (run events) :=
      Runs.run_concat events event
    obtain ⟨hafter, hkept⟩ := steady_perform hpermitted hinv
    rw [hrun]
    refine ⟨hafter, fun earlier hearlier => ?_⟩
    rcases List.prefix_concat_iff.mp hearlier with rfl | hearlier
    · rw [hrun]
      exact hafter.named
    · exact fun effect heffect => hkept.names (hemitted earlier hearlier effect heffect)

/-- Whatever is lost, repeated, delayed or restarted: an open endpoint enforces
a binding of the cluster under its own fence, with its lease still occupying; no
endpoint is ahead of the fences issued for it; and the controller recovers. -/
theorem protocol_safe (events : List WorldEvent) (h : Driven events) :
    (∀ (key : EndpointKey) e, (run events).endpoints[key]? = some e → e.isOpen →
      ∃ (id : BindingId) (binding : Binding), e.binding = some id ∧
        (run events).cluster.bindings[id]? = some binding ∧ binding.provider = key.provider ∧
        binding.node = key.node ∧ binding.fence = e.acceptedFence ∧
        binding.state.isClosed = false ∧ (run events).cluster.occupies binding.lease) ∧
    (∀ (key : EndpointKey) e, (run events).endpoints[key]? = some e →
      e.acceptedFence ≤ (run events).cluster.fenceWatermark key.provider key.node) ∧
    restartController (run events) = .ok () (run events) := by
  obtain ⟨hinv, -⟩ := inv_run events h
  refine ⟨?_, hinv.safe.fenced, restartController_eq hinv⟩
  intro key e he hopen
  obtain ⟨id, binding, hid, hbinding, rfl, hfence, hstate⟩ := hinv.safe.held key e he hopen
  refine ⟨id, binding, hid, hbinding, rfl, rfl, hfence, hstate, ?_⟩
  obtain ⟨lease, hlease, -⟩ := hinv.wellFormed.bindings.held hbinding
  exact (occupies_iff hinv.wellFormed.leases).mpr
    ⟨lease, hlease, .inr (openBindings_iff.mpr ⟨id, binding, hbinding, rfl, hstate⟩)⟩

/-- The agent of the host prepares binding 1 on the gpu. -/
def Sample.prepared : List WorldEvent := [
  .apply (.applyResourceFacts [⟨1, .machine, ∅, ∅⟩, ⟨2, .gpu, ∅, Cluster.Sample.units 2⟩]
    [⟨1, 2, .contains, ∅⟩] [⟨2, .count, some ⟨.enforce, .exclusive⟩⟩]),
  .registerAgent 1,
  .deliverOne,
  .apply (.openLease 1 1 (Cluster.Sample.allocation 2) none 100 50 0),
  .apply (.openBinding 1 1 2 .enforce .exclusive),
  .deliverOne]

/-- The prepare arrives once more after its agent has restarted. -/
def Sample.repeated : List WorldEvent :=
  Sample.prepared ++ [.restartAgent 1] ++ [.inject (.prepare 1 2 .enforce 1 1 1)]

theorem Sample.repeated_driven : Driven Sample.repeated where
  silent command hmem := by
    simp only [Sample.repeated, Sample.prepared, List.mem_append, List.mem_cons, List.not_mem_nil,
      reduceCtorEq, or_false, false_or, WorldEvent.apply.injEq] at hmem
    rcases hmem with rfl | rfl | rfl <;> rfl
  emitted before effect hbefore := by
    rcases List.prefix_concat_iff.mp hbefore with heq | hbefore
    · obtain ⟨rfl, hsame⟩ := List.append_inj' heq rfl
      cases hsame
      exact ⟨Sample.prepared.take 5, (List.take_prefix _ _).trans (List.prefix_append _ _),
        by decide +kernel⟩
    · have hmem := hbefore.subset (List.mem_append_right before (List.mem_singleton_self _))
      simp [Sample.prepared] at hmem
  contracts before hbefore := by
    have hall : ∀ before ∈ Sample.repeated.inits, exclusiveContracts (run before).cluster.graph := by
      decide +kernel
    exact hall before ((List.mem_inits _ _).mpr hbefore)
  fences before hbefore := by
    have hall : ∀ before ∈ Sample.repeated.inits, roomyFences (run before).cluster := by
      decide +kernel
    exact hall before ((List.mem_inits _ _).mpr hbefore)

theorem repeated_prepare_safe : ∃ e, (run Sample.repeated).endpoints[
      (⟨.enforce, 2⟩ : EndpointKey)]? = some e ∧ e.isOpen ∧
    (∃ (id : BindingId) (binding : Binding), e.binding = some id ∧
      (run Sample.repeated).cluster.bindings[id]? = some binding ∧ binding.provider = .enforce ∧
      binding.node = 2 ∧ binding.fence = e.acceptedFence ∧ binding.state.isClosed = false ∧
      (run Sample.repeated).cluster.occupies binding.lease) ∧
    e.acceptedFence ≤ (run Sample.repeated).cluster.fenceWatermark .enforce 2 ∧
    restartController (run Sample.repeated) = .ok () (run Sample.repeated) := by
  obtain ⟨hheld, hfenced, hrestart⟩ := protocol_safe Sample.repeated Sample.repeated_driven
  have hopen : (run Sample.repeated).endpoints[(⟨.enforce, 2⟩ : EndpointKey)]?.map
      Endpoint.isOpen = some true := by
    decide +kernel
  obtain ⟨e, he, hopen⟩ := Option.map_eq_some_iff.mp hopen
  exact ⟨e, he, hopen, hheld ⟨.enforce, 2⟩ e he hopen, hfenced ⟨.enforce, 2⟩ e he, hrestart⟩

end World
end Archon.Sim
