import Archon.Kernel.Teardown

/-! Exclusive endpoints and their fences. The fence counter of an endpoint is
advanced without an overflow check, so the laws of fences hold for runs that
never accept an exclusive binding at the last fence. -/
namespace Archon.Kernel.Cluster

/-- The greatest fence. -/
def lastFenceValue : UInt64 := 18446744073709551615

/-- Whether an event leaves room to fence: an accepted exclusive binding finds
the watermark of its endpoint below the last fence. -/
def roomToFence (c : Cluster) : Event → Bool
  | .apply (.openBinding id lease node provider .exclusive) =>
    !c.accepts (.openBinding id lease node provider .exclusive) ||
      c.fenceWatermark provider node < lastFenceValue
  | _ => true

/-- A run with room to fence all along. -/
def RoomToFence (events : List Event) : Prop :=
  Runs.Along take (fun c event => c.roomToFence event = true) new events

theorem lt_add_one_of_lt_last {fence : UInt64} (h : fence < lastFenceValue) : fence < fence + 1 := by
  rw [UInt64.lt_iff_toNat_lt] at h ⊢
  have hlast : lastFenceValue.toNat = 2 ^ 64 - 1 := by decide
  rw [UInt64.toNat_add]
  have hone : (1 : UInt64).toNat = 1 := rfl
  omega

section Step
variable {c c' : Cluster} {command : Command}

/-! Uniqueness. -/

/-- An open exclusive binding shares its endpoint with no other open binding. -/
def ExclusiveAlone (bindings : OrdMap BindingId Binding) : Prop :=
  ∀ (i j : BindingId) (a b : Binding), i ≠ j → bindings[i]? = some a → bindings[j]? = some b →
    a.state.isClosed = false → b.state.isClosed = false → a.provider = b.provider →
    a.node = b.node → a.scope ≠ .exclusive

theorem conflictingEndpoint_false {node : NodeId} {provider : ProviderId} {scope : BindingScope}
    (h : c.conflictingEndpoint node provider scope = false) {id : BindingId} {binding : Binding}
    (hbinding : c.bindings[id]? = some binding) (hopen : binding.state.isClosed = false)
    (hprovider : binding.provider = provider) (hnode : binding.node = node) :
    scope ≠ .exclusive ∧ binding.scope ≠ .exclusive := by
  simp only [conflictingEndpoint, List.any_eq_false, OrdMap.mem_vals] at h
  have hfree := h binding ⟨id, hbinding⟩
  simpa [hopen, hprovider, hnode] using hfree

theorem exclusiveAlone_step (h : ExclusiveAlone c.bindings) (hstep : Step c command c') :
    ExclusiveAlone c'.bindings := by
  intro i j a b hne ha hb hopenA hopenB hprovider hnode
  have hevolve := bindings_evolve hstep
  rcases hevolve.origin ha with ⟨a₀, ha₀, hmovesA⟩ | ⟨-, hfreshA⟩
  · rcases hevolve.origin hb with ⟨b₀, hb₀, hmovesB⟩ | ⟨-, hfreshB⟩
    · rw [hmovesA.scope]
      exact h i j a₀ b₀ hne ha₀ hb₀ (hmovesA.was_open hopenA) (hmovesB.was_open hopenB)
        (by rw [← hmovesA.provider, hprovider, hmovesB.provider])
        (by rw [← hmovesA.node, hnode, hmovesB.node])
    · rw [hmovesA.scope]
      exact (conflictingEndpoint_false hfreshB.alone ha₀ (hmovesA.was_open hopenA)
        (by rw [← hmovesA.provider, hprovider]) (by rw [← hmovesA.node, hnode])).2
  · rcases hevolve.origin hb with ⟨b₀, hb₀, hmovesB⟩ | ⟨-, hfreshB⟩
    · exact (conflictingEndpoint_false hfreshA.alone hb₀ (hmovesB.was_open hopenB)
        (by rw [← hmovesB.provider, hprovider]) (by rw [← hmovesB.node, hnode])).1
    · -- one command opens one binding
      have hsame := hfreshA.command.symm.trans hfreshB.command
      simp only [Command.openBinding.injEq] at hsame
      exact absurd hsame.1 hne

/-! Watermarks. -/

/-- An accepted exclusive binding finds room above the watermark. -/
theorem room_of_bind {id : BindingId} {lease : LeaseId} {node : NodeId} {provider : ProviderId}
    (hroom : c.roomToFence (.apply (.openBinding id lease node provider .exclusive)))
    (hstep : Step c (.openBinding id lease node provider .exclusive) c') :
    c.fenceWatermark provider node < c.fenceWatermark provider node + 1 := by
  have haccepts := accepts_iff.mpr ⟨c', hstep⟩
  simp only [roomToFence, haccepts, Bool.not_true, Bool.false_or, decide_eq_true_eq] at hroom
  exact lt_add_one_of_lt_last hroom

theorem lastFence_step (hroom : c.roomToFence (.apply command)) (hstep : Step c command c')
    {key : EndpointKey} {watermark : UInt64} (hkey : c.lastFence[key]? = some watermark) :
    ∃ next, c'.lastFence[key]? = some next ∧ watermark ≤ next := by
  have hstep' := hstep
  cases hstep with
  | @bind node provider scope id =>
    cases scope with
    | independentShare => exact ⟨watermark, hkey, UInt64.le_refl _⟩
    | exclusive =>
      have hgrows := room_of_bind hroom hstep'
      simp only [issuedFences, OrdMap.get_insert]
      split
      · rename_i heq
        subst heq
        refine ⟨_, rfl, ?_⟩
        rw [fenceWatermark, hkey] at hgrows ⊢
        exact UInt64.le_of_lt hgrows
      · exact ⟨watermark, hkey, UInt64.le_refl _⟩
  | @raise node fence provider =>
    simp only [OrdMap.get_upsert]
    split
    · rename_i heq
      subst heq
      refine ⟨_, rfl, ?_⟩
      rw [hkey]
      simp only [Option.getD_some]
      split
      · exact UInt64.le_of_lt ‹_›
      · exact UInt64.le_refl _
    · exact ⟨watermark, hkey, UInt64.le_refl _⟩
  | retry | install | annotate | enter | advance | release | finish | rebind | lose | hello
  | restate => exact ⟨watermark, hkey, UInt64.le_refl _⟩

/-- The fence of an exclusive binding is within the watermark of its endpoint. -/
def FencesWithin (c : Cluster) : Prop :=
  ∀ (id : BindingId) (binding : Binding), c.bindings[id]? = some binding →
    binding.scope = .exclusive → binding.fence ≤ c.fenceWatermark binding.provider binding.node

theorem fenceWatermark_mono
    (h : ∀ (key : EndpointKey) watermark, c.lastFence[key]? = some watermark →
      ∃ next, c'.lastFence[key]? = some next ∧ watermark ≤ next) (provider : ProviderId)
    (node : NodeId) : c.fenceWatermark provider node ≤ c'.fenceWatermark provider node := by
  unfold fenceWatermark
  cases hkey : c.lastFence[(⟨provider, node⟩ : EndpointKey)]? with
  | none => simp
  | some watermark =>
    obtain ⟨next, hnext, hle⟩ := h _ watermark hkey
    rw [hnext]
    exact hle

/-- An exclusive binding takes the fence right above the watermark, and the
watermark moves up to it. -/
theorem fence_of_opened (hroom : c.roomToFence (.apply command)) (hstep : Step c command c')
    {id : BindingId} {binding : Binding} (hnone : c.bindings[id]? = none)
    (hafter : c'.bindings[id]? = some binding) (hscope : binding.scope = .exclusive) :
    c.fenceWatermark binding.provider binding.node < binding.fence ∧
      c'.fenceWatermark binding.provider binding.node = binding.fence := by
  have hfresh := (bindings_evolve hstep).made id binding hnone hafter
  have hfence := hfresh.fence
  obtain ⟨-, -, -, hwatermarks⟩ := opened_frame hstep hnone hafter
  have hcommand := hfresh.command
  rw [hscope] at hfence hwatermarks hcommand
  subst hcommand
  refine ⟨?_, ?_⟩
  · rw [hfence]
    exact room_of_bind hroom hstep
  · rw [hfence, fenceWatermark, hwatermarks]
    simp [issuedFences, issuedFence]

theorem fencesWithin_step (h : FencesWithin c) (hroom : c.roomToFence (.apply command))
    (hstep : Step c command c') : FencesWithin c' := by
  intro id after hafter hscope
  rcases (bindings_evolve hstep).origin hafter with ⟨binding, hbinding, hmoves⟩ | ⟨hnone, -⟩
  · have hgrows := fenceWatermark_mono (fun key watermark => lastFence_step hroom hstep)
      binding.provider binding.node
    rw [hmoves.fence, hmoves.provider, hmoves.node]
    exact UInt64.le_trans (h id binding hbinding (hmoves.scope ▸ hscope)) hgrows
  · rw [(fence_of_opened hroom hstep hnone hafter hscope).2]
    exact UInt64.le_refl _

/-- What a later cluster owes to an earlier one: watermarks never drop, and an
exclusive binding opened since is fenced above the earlier watermark. -/
structure FencedSince (c c' : Cluster) : Prop where
  watermark : ∀ (key : EndpointKey) (watermark : UInt64), c.lastFence[key]? = some watermark →
    ∃ next, c'.lastFence[key]? = some next ∧ watermark ≤ next
  opened : ∀ (id : BindingId) (binding : Binding), c.bindings[id]? = none →
    c'.bindings[id]? = some binding → binding.scope = .exclusive →
    c.fenceWatermark binding.provider binding.node < binding.fence

theorem FencedSince.refl (c : Cluster) : FencedSince c c where
  watermark _ watermark hkey := ⟨watermark, hkey, UInt64.le_refl _⟩
  opened _ _ hnone hsome := by simp [hnone] at hsome

theorem FencedSince.step {first : Cluster} (h : FencedSince first c)
    (hroom : c.roomToFence (.apply command)) (hstep : Step c command c') : FencedSince first c' where
  watermark key watermark hkey := by
    obtain ⟨next, hnext, hle⟩ := h.watermark key watermark hkey
    obtain ⟨last, hlast, hle'⟩ := lastFence_step hroom hstep hnext
    exact ⟨last, hlast, UInt64.le_trans hle hle'⟩
  opened id after hnone hafter hscope := by
    rcases (bindings_evolve hstep).origin hafter with ⟨binding, hbinding, hmoves⟩ | ⟨hfresh, -⟩
    · rw [hmoves.provider, hmoves.node, hmoves.fence]
      exact h.opened id binding hnone hbinding (hmoves.scope ▸ hscope)
    · have hmono := fenceWatermark_mono h.watermark after.provider after.node
      exact UInt64.lt_of_le_of_lt hmono (fence_of_opened hroom hstep hfresh hafter hscope).1

end Step

/-! Runs. -/

theorem exclusiveAlone_run (events : List Event) : ExclusiveAlone (run events).bindings := by
  refine @run_invariant (fun c => ExclusiveAlone c.bindings) ?_ (fun _ _ _ _ _ h => h)
    (fun _ _ _ hstep h => exclusiveAlone_step h hstep) events
  intro i j a b _ ha
  simp [new] at ha

theorem fencesWithin_run (events : List Event) (hroom : RoomToFence events) :
    FencesWithin (run events) := by
  refine @run_invariant_along _ FencesWithin ?_ (fun _ _ _ _ _ h => h)
    (fun _ _ _ hgood hstep h => fencesWithin_step h hgood hstep) events hroom
  intro id binding hbinding
  simp [new] at hbinding

theorem RoomToFence.split {before after : List Event} (h : RoomToFence (before ++ after)) :
    RoomToFence before ∧
      Runs.Along take (fun c event => c.roomToFence event = true) (run before) after :=
  (Runs.along_append before after).mp h

theorem fencedSince_run {before after : List Event} (h : RoomToFence (before ++ after)) :
    FencedSince (run before) (run (before ++ after)) :=
  run_related_along FencedSince.refl (fun _ _ _ _ _ _ h => ⟨h.watermark, h.opened⟩)
    (fun _ _ _ _ hgood hstep h => h.step hgood hstep) before after h.split.2

/-- An accepted raise leaves the watermark at or above the fence it names. -/
theorem raised_watermark {c c' : Cluster} {node : NodeId} {provider : ProviderId} {fence : UInt64}
    (hstep : Step c (.advanceEndpointFence node provider fence) c') :
    fence ≤ c'.fenceWatermark provider node ∧ c'.bindings = c.bindings := by
  cases hstep with
  | raise hnode hpositive =>
    refine ⟨?_, rfl⟩
    simp only [fenceWatermark, OrdMap.get_upsert, if_true, Option.getD_some]
    split
    · exact UInt64.le_refl _
    · rename_i hle
      exact UInt64.not_lt.mp hle
  | retry h => cases h
  | install _ h => cases h
  | annotate h => cases h
  | enter _ _ h => cases h
  | advance _ _ h => cases h
  | finish _ h => cases h
  | rebind _ h => cases h
  | restate h => cases h

theorem raised_run (events : List Event) {node : NodeId} {provider : ProviderId} {fence : UInt64}
    (haccepts : (run events).accepts (.advanceEndpointFence node provider fence)) :
    fence ≤ (run (events ++ [.apply (.advanceEndpointFence node provider fence)])).fenceWatermark
      provider node ∧
    (run (events ++ [.apply (.advanceEndpointFence node provider fence)])).bindings =
      (run events).bindings := by
  have htaken := taken_run events (.apply (.advanceEndpointFence node provider fence))
  generalize run (events ++ [.apply (.advanceEndpointFence node provider fence)]) = after at htaken ⊢
  cases htaken with
  | accepted hstep =>
    obtain ⟨hraised, hsame⟩ := raised_watermark hstep
    exact ⟨hraised, hsame⟩
  | refused hrefused =>
    rw [haccepts] at hrefused
    cases hrefused

/-- Exclusive endpoints are held once, under fences that only grow. -/
theorem exclusive_endpoints_fenced (events : List Event) (hroom : RoomToFence events) :
    (∀ (i j : BindingId) (a b : Binding), i ≠ j → (run events).bindings[i]? = some a →
      (run events).bindings[j]? = some b → a.state.isClosed = false → b.state.isClosed = false →
      a.provider = b.provider → a.node = b.node → a.scope ≠ .exclusive ∧ b.scope ≠ .exclusive) ∧
    (∀ (before after : List Event) (i j : BindingId) (a b : Binding), events = before ++ after →
      (run before).bindings[i]? = some a → (run before).bindings[j]? = none →
      (run events).bindings[j]? = some b → a.scope = .exclusive → b.scope = .exclusive →
      a.provider = b.provider → a.node = b.node → a.fence < b.fence) ∧
    (∀ (before after : List Event) (node : NodeId) (provider : ProviderId) (fence : UInt64)
      (j : BindingId) (b : Binding),
      events = before ++ .apply (.advanceEndpointFence node provider fence) :: after →
      (run before).accepts (.advanceEndpointFence node provider fence) →
      (run before).bindings[j]? = none → (run events).bindings[j]? = some b →
      b.scope = .exclusive → b.provider = provider → b.node = node → fence < b.fence) ∧
    (∀ (before after : List Event) (key : EndpointKey) (watermark : UInt64),
      events = before ++ after → (run before).lastFence[key]? = some watermark →
      ∃ next, (run events).lastFence[key]? = some next ∧ watermark ≤ next) ∧
    ∀ (before after : List Event) (id : BindingId) (a : Binding), events = before ++ after →
      (run before).bindings[id]? = some a → ∃ b, (run events).bindings[id]? = some b ∧
        b.fence = a.fence ∧ b.lease = a.lease ∧ b.node = a.node ∧ b.provider = a.provider ∧
        b.scope = a.scope := by
  refine ⟨?_, ?_, ?_, ?_, ?_⟩
  · intro i j a b hne ha hb hopenA hopenB hprovider hnode
    have halone := exclusiveAlone_run events
    exact ⟨halone i j a b hne ha hb hopenA hopenB hprovider hnode,
      halone j i b a hne.symm hb ha hopenB hopenA hprovider.symm hnode.symm⟩
  · rintro before after i j a b rfl ha hnone hb hscopeA hscopeB hprovider hnode
    have hwithin := fencesWithin_run before hroom.split.1 i a ha hscopeA
    have habove := (fencedSince_run hroom).opened j b hnone hb hscopeB
    rw [hprovider, hnode] at hwithin
    exact UInt64.lt_of_le_of_lt hwithin habove
  · rintro before after node provider fence j b rfl haccepts hnone hb hscope rfl rfl
    obtain ⟨hraised, hsame⟩ := raised_run before haccepts
    rw [List.append_cons] at hroom hb
    have habove := (fencedSince_run hroom).opened j b (by rw [hsame, hnone]) hb hscope
    exact UInt64.lt_of_le_of_lt hraised habove
  · rintro before after key watermark rfl hkey
    exact (fencedSince_run hroom).watermark key watermark hkey
  · rintro before after id a rfl ha
    obtain ⟨b, hb, hmoves⟩ := (precedes_run before after).binding ha
    exact ⟨b, hb, hmoves.fence, hmoves.lease, hmoves.node, hmoves.provider, hmoves.scope⟩

/-- The gpu changes hands: the first binding is torn down, the endpoint reports
a stray fence, and a second lease binds it. -/
def Sample.handover : List Event := [
  .apply (.recordBindingReleased 1 1 1),
  .apply (.advanceEndpointFence 2 .enforce 5),
  Sample.openLease 2 2 none,
  .apply (.openBinding 2 2 2 .enforce .exclusive)]

theorem handover_fenced : ∃ a b : Binding,
    (run Sample.released).bindings[(1 : BindingId)]? = some a ∧
    (run (Sample.released ++ Sample.handover)).bindings[(2 : BindingId)]? = some b ∧
    a.fence < b.fence ∧ 5 < b.fence ∧
    (∃ next, (run (Sample.released ++ Sample.handover)).lastFence[(⟨.enforce, 2⟩ : EndpointKey)]? =
      some next ∧ 1 ≤ next) ∧
    ∃ kept, (run (Sample.released ++ Sample.handover)).bindings[(1 : BindingId)]? = some kept ∧
      kept.fence = a.fence := by
  have hroom : RoomToFence (Sample.released ++ Sample.handover) := by
    unfold RoomToFence
    decide +kernel
  have hfirst : (run Sample.released).bindings[(1 : BindingId)]?.map
      (fun binding => (binding.scope, binding.provider, binding.node)) =
      some (.exclusive, .enforce, 2) := by
    decide +kernel
  have hsecond : (run (Sample.released ++ Sample.handover)).bindings[(2 : BindingId)]?.map
      (fun binding => (binding.scope, binding.provider, binding.node)) =
      some (.exclusive, .enforce, 2) := by
    decide +kernel
  obtain ⟨a, ha, heqA⟩ := Option.map_eq_some_iff.mp hfirst
  obtain ⟨b, hb, heqB⟩ := Option.map_eq_some_iff.mp hsecond
  simp only [Prod.mk.injEq] at heqA heqB
  have hlaw := exclusive_endpoints_fenced _ hroom
  refine ⟨a, b, ha, hb, ?_, ?_, ?_, ?_⟩
  · exact hlaw.2.1 Sample.released Sample.handover 1 2 a b rfl ha (by decide +kernel) hb heqA.1
      heqB.1 (heqA.2.1.trans heqB.2.1.symm) (heqA.2.2.trans heqB.2.2.symm)
  · exact hlaw.2.2.1 (Sample.released ++ [.apply (.recordBindingReleased 1 1 1)]) _ 2 .enforce 5 2 b
      rfl (by decide +kernel) (by decide +kernel) hb heqB.1 heqB.2.1 heqB.2.2
  · exact hlaw.2.2.2.1 Sample.released Sample.handover ⟨.enforce, 2⟩ 1 rfl (by decide +kernel)
  · obtain ⟨kept, hfound, hfence, -⟩ := hlaw.2.2.2.2 Sample.released Sample.handover 1 a rfl ha
    exact ⟨kept, hfound, hfence⟩

end Archon.Kernel.Cluster
