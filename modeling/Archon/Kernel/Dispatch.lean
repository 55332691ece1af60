import Archon.Kernel.Step

/-! The code takes exactly the steps of `Step`. One lemma per operation reads a
successful run back into the step it took; the other direction reruns the
program under the facts a step carries. -/
namespace Archon.Kernel.Cluster
open Fallible

theorem cascade_ok {keeps : LeaseState → Bool} {final : LeaseState} {ids : List LeaseId}
    {c c' : Cluster} {effects : List Effect} :
    cascade keeps final ids c = .ok effects c' ↔
      ids.flatMap c.fenceEffects = effects ∧
        { c with leases := ids.foldl (fun leases descendant =>
            leases.modify descendant (endLease keeps final)) c.leases } = c' := by
  induction ids generalizing c effects with
  | nil => simp [cascade]
  | cons descendant rest ih =>
    simp only [cascade, bind_ok, modify_ok, get_ok, pure_ok, List.flatMap_cons, List.foldl_cons]
    constructor
    · rintro ⟨_, _, rfl, _, _, ⟨rfl, rfl⟩, _, _, hrest, rfl, rfl⟩
      obtain ⟨rfl, rfl⟩ := ih.mp hrest
      exact ⟨rfl, rfl⟩
    · rintro ⟨rfl, rfl⟩
      exact ⟨(), _, rfl, _, _, ⟨rfl, rfl⟩, _, _, ih.mpr ⟨rfl, rfl⟩, rfl, rfl⟩

/-- The revocation loop never fails, and ends the same leases as the others. -/
theorem revokeCascade_run (ids : List LeaseId) (c : Cluster) :
    ∃ effects, revokeCascade ids c = .ok effects
      { c with leases := ids.foldl (fun leases descendant =>
          leases.modify descendant (endLease endedKeeps .revoked)) c.leases } := by
  induction ids generalizing c with
  | nil => exact ⟨[], rfl⟩
  | cons child rest ih =>
    rw [List.foldl_cons]
    cases hchild : c.leases[child]? with
    | none =>
      obtain ⟨effects, hrest⟩ := ih c
      refine ⟨effects, ?_⟩
      rw [OrdMap.modify_of_get_none hchild]
      simp [revokeCascade, hchild, hrest]
    | some lease =>
      obtain ⟨effects, hrest⟩ := ih { c with
        leases := c.leases.modify child (endLease endedKeeps .revoked) }
      refine ⟨c.fenceEffects child ++ effects, ?_⟩
      simp [revokeCascade, hchild, hrest]
      rfl

theorem revokeCascade_ok {ids : List LeaseId} {c c' : Cluster} {effects : List Effect}
    (h : revokeCascade ids c = .ok effects c') :
    { c with leases := ids.foldl (fun leases descendant =>
        leases.modify descendant (endLease endedKeeps .revoked)) c.leases } = c' := by
  obtain ⟨_, hrun⟩ := revokeCascade_run ids c
  rw [hrun] at h
  cases h
  rfl

theorem issueFence_ok {id : BindingId} {node : NodeId} {provider : ProviderId} {scope : BindingScope}
    {c c' : Cluster} {fence : UInt64} :
    issueFence id node provider scope c = .ok fence c' ↔
      c.issuedFence id node provider scope = fence ∧
        { c with lastFence := c.issuedFences node provider scope } = c' := by
  cases scope with
  | exclusive => simp [issueFence, issuedFence, issuedFences, and_comm]
  | independentShare => simp [issueFence, issuedFence, issuedFences]

theorem installResourceGraph_ok {staged : Graph} {c c' : Cluster} {effects : List Effect} :
    installResourceGraph staged c = .ok effects c' ↔
      c.refuseShrunk staged = .ok () ∧ c.refuseRerouted staged = .ok () ∧
        { c with graph := staged } = c' ∧ effects = [] := by
  simp [installResourceGraph]

section Forward
variable {c c' : Cluster} {effects : List Effect}

theorem step_of_applyGraph (h : applyGraph nodes edges c = .ok effects c') :
    Step c (.applyGraph nodes edges) c' := by
  simp [applyGraph, installResourceGraph_ok] at h
  obtain ⟨hagreed, staged, hstaged, hshrunk, hrouted, rfl, -⟩ := h
  exact .install hagreed (.legacy hstaged) hshrunk hrouted

theorem step_of_applyResourceFacts (h : applyResourceFacts nodes edges updates c = .ok effects c') :
    Step c (.applyResourceFacts nodes edges updates) c' := by
  simp [applyResourceFacts, installResourceGraph_ok] at h
  obtain ⟨hagreed, staged, hstaged, hshrunk, hrouted, rfl, -⟩ := h
  exact .install hagreed (.resource hstaged) hshrunk hrouted

theorem step_of_applyProviderFacts (h : applyProviderFacts batches updates c = .ok effects c') :
    Step c (.applyProviderFacts batches updates) c' := by
  simp [applyProviderFacts, installResourceGraph_ok] at h
  obtain ⟨hagreed, staged, hstaged, hshrunk, hrouted, rfl, -⟩ := h
  exact .install hagreed (.provider hstaged) hshrunk hrouted

theorem step_of_adoptFactWriters (h : adoptFactWriters assignments c = .ok effects c') :
    Step c (.adoptFactWriters assignments) c' := by
  simp [adoptFactWriters] at h
  obtain ⟨hagreed, staged, hstaged, rfl, -⟩ := h
  exact .annotate (.adopt hagreed hstaged)

theorem step_of_reserveLease {id : LeaseId}
    (h : reserveLease id owner allocation expiresAt priority c = .ok effects c') :
    Step c (.reserveLease id owner allocation expiresAt priority) c' := by
  simp only [reserveLease, bind_ok, get_ok, attempt_ok, refuseIf_ok, not_not] at h
  obtain ⟨_, _, ⟨rfl, rfl⟩, _, _, ⟨hagreed, rfl⟩, h⟩ := h
  cases hlease : c.leases[id]? with
  | some existing =>
    simp [hlease] at h
    obtain ⟨⟨hstate, howner, hclaims, hexpires⟩, -, rfl⟩ := h
    exact .retry (.reserve hagreed hlease hstate howner hclaims hexpires)
  | none =>
    simp [hlease] at h
    obtain ⟨hrevision, claims, hclaims, hquarantine, hcover, rfl, -⟩ := h
    exact .enter hagreed hlease (.reserve hclaims hrevision hquarantine hcover)

theorem step_of_promoteLease {id : LeaseId} (h : promoteLease id deadline c = .ok effects c') :
    Step c (.promoteLease id deadline) c' := by
  simp [promoteLease] at h
  obtain ⟨hagreed, lease, hlease, ⟨hstate, -, rfl⟩ |
    ⟨-, hstate, claims, hclaims, hquarantine, hclock, hcover, rfl, -⟩⟩ := h
  · exact .retry (.promote hagreed hlease hstate)
  · exact .advance hagreed hlease (.promote hstate hclaims hquarantine hclock hcover)

theorem step_of_openLease {id : LeaseId}
    (h : openLease id owner allocation parent expiresAt deadline priority c = .ok effects c') :
    Step c (.openLease id owner allocation parent expiresAt deadline priority) c' := by
  simp only [openLease, bind_ok, get_ok, attempt_ok, refuseIf_ok, not_not] at h
  obtain ⟨_, _, ⟨rfl, rfl⟩, _, _, ⟨hagreed, rfl⟩, h⟩ := h
  cases hlease : c.leases[id]? with
  | some existing =>
    simp [hlease] at h
    obtain ⟨⟨howner, hparent, hclaims⟩, -, rfl⟩ := h
    exact .retry (.openLease hagreed hlease howner hparent hclaims)
  | none =>
    simp [hlease] at h
    obtain ⟨hrevision, claims, hclaims, hquarantine, hdelegation, rfl, -⟩ := h
    exact .enter hagreed hlease (.openLease hclaims hrevision hquarantine hdelegation)

theorem step_of_activateLease {id : LeaseId} (h : activateLease id c = .ok effects c') :
    Step c (.activateLease id) c' := by
  simp [activateLease] at h
  obtain ⟨hagreed, lease, hlease, ⟨hstate, -, rfl⟩ |
    ⟨-, hstate, hrevision, hquarantine, hexpiry, hdeadline, hstanding, hprepared, rfl, -⟩⟩ := h
  · exact .retry (.activate hagreed hlease hstate)
  · exact .advance hagreed hlease
      (.activate hstate hrevision hquarantine hexpiry hdeadline hstanding hprepared)

/-- Keeping the state and ending in it are the two branches of `endLease`. -/
theorem modify_endLease_of_keeps {leases : OrdMap LeaseId Lease} {id : LeaseId} {lease : Lease}
    {keeps : LeaseState → Bool} {final : LeaseState} (hlease : leases[id]? = some lease)
    (hkeeps : keeps lease.state) : leases.modify id (endLease keeps final) = leases := by
  apply Std.ExtTreeMap.ext_getElem?
  intro a
  rw [OrdMap.get_modify]
  split
  · rename_i ha
    subst ha
    simp [hlease, endLease, hkeeps]
  · rfl

theorem modify_endLease_of_ends {leases : OrdMap LeaseId Lease} {id : LeaseId} {lease : Lease}
    {keeps : LeaseState → Bool} {final : LeaseState} (hlease : leases[id]? = some lease)
    (hkeeps : keeps lease.state = false) :
    leases.modify id (endLease keeps final) =
      leases.modify id fun lease => { lease with state := final } := by
  apply Std.ExtTreeMap.ext_getElem?
  intro a
  rw [OrdMap.get_modify, OrdMap.get_modify]
  split
  · rename_i ha
    subst ha
    simp [hlease, endLease, hkeeps]
  · rfl

/-- The descent never removes a lease from the table. -/
theorem get_foldl_endLease {leases : OrdMap LeaseId Lease} (ids : List LeaseId)
    (keeps : LeaseState → Bool) (final : LeaseState) (id : LeaseId) :
    (ids.foldl (fun leases descendant => leases.modify descendant (endLease keeps final))
      leases)[id]?.isSome = leases[id]?.isSome := by
  induction ids generalizing leases with
  | nil => rfl
  | cons descendant rest ih =>
    rw [List.foldl_cons, ih, OrdMap.get_modify]
    split <;> simp

theorem exists_of_get_foldl_endLease {leases : OrdMap LeaseId Lease} {ids : List LeaseId}
    {keeps : LeaseState → Bool} {final : LeaseState} {id : LeaseId} {ended : Lease}
    (h : (ids.foldl (fun leases descendant => leases.modify descendant (endLease keeps final))
      leases)[id]? = some ended) : ∃ lease, leases[id]? = some lease := by
  have hsome := @get_foldl_endLease leases ids keeps final id
  rw [h] at hsome
  exact Option.isSome_iff_exists.mp hsome.symm

theorem step_of_failLease {id : LeaseId} (h : failLease id reason c = .ok effects c') :
    Step c (.failLease id reason) c' := by
  simp only [failLease, bind_ok, get_ok, cascade_ok, attempt_ok, okOr_ok, ite_ok, pure_ok,
    modify_ok] at h
  obtain ⟨_, _, ⟨rfl, rfl⟩, _, _, ⟨-, rfl⟩, _, _, ⟨rfl, rfl⟩, ended, _, ⟨hended, rfl⟩, h⟩ := h
  obtain ⟨lease, hlease⟩ := exists_of_get_foldl_endLease hended
  have hstep : Step c (.failLease id reason) { c with
      leases := c.endTree id endedKeeps .failed (endLease endedKeeps .failed) } :=
    .finish hlease .fail
  rcases h with ⟨hkeeps, -, rfl⟩ | ⟨hends, _, _, rfl, _, _, ⟨rfl, rfl⟩, -, rfl⟩
  · rwa [endTree, modify_endLease_of_keeps hended hkeeps] at hstep
  · rwa [endTree, modify_endLease_of_ends hended (by simpa using hends)] at hstep

theorem step_of_releaseLease {id : LeaseId} (h : releaseLease id c = .ok effects c') :
    Step c (.releaseLease id) c' := by
  simp [releaseLease, -List.filter_eq_nil_iff] at h
  obtain ⟨hdead, lease, hlease, ⟨hstate, -, rfl⟩ | ⟨-, hstate, rfl, -⟩⟩ := h
  · exact .retry (.release hdead hlease hstate)
  · exact .release hdead hlease (by tauto)

theorem step_of_revokeLease {id : LeaseId} (h : revokeLease id c = .ok effects c') :
    Step c (.revokeLease id) c' := by
  simp only [revokeLease, bind_ok, get_ok, attempt_ok, okOr_ok, pure_ok, modify_ok] at h
  obtain ⟨_, _, ⟨rfl, rfl⟩, _, _, hcascade, _, _, ⟨rfl, rfl⟩, ended, _, ⟨hended, rfl⟩, _, _, rfl,
    _, _, ⟨rfl, rfl⟩, -, rfl⟩ := h
  obtain rfl := revokeCascade_ok hcascade
  obtain ⟨lease, hlease⟩ := exists_of_get_foldl_endLease hended
  exact .finish hlease .revoke

theorem step_of_expireLease {id : LeaseId} (h : expireLease id c = .ok effects c') :
    Step c (.expireLease id) c' := by
  simp [expireLease, cascade_ok] at h
  obtain ⟨lease, hlease, ⟨hstate, -, rfl⟩ | ⟨-, hlive, hdue, -, rfl, -⟩⟩ := h
  · exact .retry (.expire hlease hstate)
  · exact .finish hlease (.expire hlive hdue)

theorem step_of_completeLease {id : LeaseId} (h : completeLease id code c = .ok effects c') :
    Step c (.completeLease id code) c' := by
  simp [completeLease, cascade_ok] at h
  obtain ⟨lease, hlease, ⟨hstate, -, rfl⟩ | ⟨-, hlive, -, rfl, -⟩⟩ := h
  · exact .retry (.complete hlease hstate)
  · exact .finish hlease (.complete hlive)

theorem step_of_renewLease {id : LeaseId} (h : renewLease id newExpiresAt c = .ok effects c') :
    Step c (.renewLease id newExpiresAt) c' := by
  simp [renewLease] at h
  obtain ⟨hagreed, lease, hlease, hstate, ⟨hexpires, -, rfl⟩ | ⟨-, ⟨hlater, hclock⟩, rfl, -⟩⟩ := h
  · exact .retry (.renew hagreed hlease (by tauto) hexpires)
  · exact .advance hagreed hlease (.renew (by tauto) hlater hclock)

theorem step_of_openBinding {id : BindingId}
    (h : openBinding id lease node provider scope c = .ok effects c') :
    Step c (.openBinding id lease node provider scope) c' := by
  simp only [openBinding, bind_ok, get_ok] at h
  obtain ⟨_, _, ⟨rfl, rfl⟩, h⟩ := h
  cases hbinding : c.bindings[id]? with
  | some existing =>
    simp [hbinding] at h
    obtain ⟨⟨hlease, hnode, hprovider, hscope⟩, ⟨-, -, rfl⟩ | ⟨-, -, rfl⟩⟩ := h
    · exact .retry (.openBinding hbinding hlease hnode hprovider hscope)
    · exact .retry (.openBinding hbinding hlease hnode hprovider hscope)
  | none =>
    simp [hbinding, issueFence_ok] at h
    obtain ⟨found, hlease, hstate, hroot, claim, hclaim, required, hrequired,
      ⟨hprovider, hscope⟩, hquarantine, machine, hmachine, session, hsession, hendpoint, rfl, -⟩ := h
    exact .bind hbinding hlease hstate hroot hclaim hrequired hprovider hscope hquarantine hmachine
      hsession hendpoint

theorem step_of_activateBinding {id : BindingId} (h : activateBinding id c = .ok effects c') :
    Step c (.activateBinding id) c' := by
  simp [activateBinding] at h
  obtain ⟨binding, hbinding, lease, hlease, hactive, ⟨hstate, -, rfl⟩ | ⟨-, hstate, rfl, -⟩⟩ := h
  · exact .retry (.activateBinding hbinding hlease hactive hstate)
  · exact .rebind hbinding (.activate hlease hactive hstate)

theorem step_of_fenceBinding {id : BindingId} (h : fenceBinding id c = .ok effects c') :
    Step c (.fenceBinding id) c' := by
  simp [fenceBinding] at h
  obtain ⟨binding, hbinding, ⟨-, -, rfl⟩ | ⟨-, ⟨-, -, rfl⟩ | ⟨-, -, rfl⟩⟩⟩ := h
  all_goals exact .retry (.fenceBinding hbinding)

theorem step_of_failBinding {id : BindingId} (h : failBinding id reason c = .ok effects c') :
    Step c (.failBinding id reason) c' := by
  simp [failBinding] at h
  obtain ⟨binding, hbinding, ⟨hclosed, -, rfl⟩ | ⟨hopen, _, ⟨-, rfl⟩, -⟩⟩ := h
  · exact .retry (.failBinding hbinding hclosed)
  · exact .rebind hbinding (.fail hopen)

theorem step_of_releaseBinding {id : BindingId} (h : releaseBinding id c = .ok effects c') :
    Step c (.releaseBinding id) c' := by
  simp [releaseBinding] at h
  obtain ⟨binding, hbinding, ⟨-, -, rfl⟩ | ⟨-, ⟨-, -, rfl⟩ | ⟨-, -, rfl⟩⟩⟩ := h
  all_goals exact .retry (.releaseBinding hbinding)

/-- What an acknowledgement proved. -/
theorem acknowledged_ok {id : BindingId} {session fence : UInt64} {binding : Binding} :
    c.acknowledged id session fence = .ok binding ↔
      c.bindings[id]? = some binding ∧ (∃ machine, c.requireSession binding.node session = .ok machine) ∧
        binding.fence = fence := by
  simp only [acknowledged, requireFence, check_bind_ok, okOr_ok, refuseIf_ok, check_pure_ok, not_not]
  constructor
  · rintro ⟨_, hbinding, machine, hsession, _, hfence, rfl⟩
    exact ⟨hbinding, ⟨machine, hsession⟩, hfence⟩
  · rintro ⟨hbinding, ⟨machine, hsession⟩, hfence⟩
    exact ⟨_, hbinding, machine, hsession, (), hfence, rfl⟩

theorem step_of_recordPrepared {id : BindingId}
    (h : recordPrepared id session handle fence c = .ok effects c') :
    Step c (.recordBindingPrepared id session handle fence) c' := by
  simp [recordPrepared] at h
  obtain ⟨binding, hack, hstate, rfl, -⟩ := h
  exact .rebind (acknowledged_ok.mp hack).1 (.prepared hack (by tauto))

theorem step_of_recordActive {id : BindingId} (h : recordActive id session fence c = .ok effects c') :
    Step c (.recordBindingActive id session fence) c' := by
  simp [recordActive] at h
  obtain ⟨binding, hack, hstate, rfl, -⟩ := h
  exact .rebind (acknowledged_ok.mp hack).1 (.active hack hstate)

theorem step_of_recordReleased {id : BindingId}
    (h : recordReleased id session fence c = .ok effects c') :
    Step c (.recordBindingReleased id session fence) c' := by
  simp [recordReleased, recordClosed] at h
  obtain ⟨⟨binding, hack⟩, rfl, -⟩ := h
  exact .rebind (acknowledged_ok.mp hack).1 (.released hack)

theorem step_of_recordFenced {id : BindingId} (h : recordFenced id session fence c = .ok effects c') :
    Step c (.recordBindingFenced id session fence) c' := by
  simp [recordFenced, recordClosed] at h
  obtain ⟨⟨binding, hack⟩, rfl, -⟩ := h
  exact .rebind (acknowledged_ok.mp hack).1 (.fenced hack)

theorem step_of_recordFailed {id : BindingId}
    (h : recordFailed id session reason fence c = .ok effects c') :
    Step c (.recordBindingFailed id session reason fence) c' := by
  simp [recordFailed] at h
  obtain ⟨binding, hack, ⟨lease, hlease⟩, rfl, -⟩ := h
  exact .lose hack hlease

theorem step_of_setNodeState (h : setNodeState node state c = .ok effects c')
    (hcommand : Restated c command node state) : Step c command c' := by
  simp [setNodeState] at h
  obtain ⟨current, hcurrent, hretired, hclean, hvacant, rfl, -⟩ := h
  refine .restate hcommand ⟨hcurrent, hretired, ?_, hvacant⟩
  intro hstate hne hdraining binding hmem hopen
  exact hclean hstate hne hdraining binding hmem hopen

theorem step_of_setNodeHealth (h : setNodeHealth node health c = .ok effects c') :
    Step c (.setNodeHealth node health) c' := by
  simp [setNodeHealth] at h
  obtain ⟨observed, hobserved, rfl, -⟩ := h
  exact .annotate (.observe hobserved)

theorem step_of_setAgentSession (h : setAgentSession machine session c = .ok effects c') :
    Step c (.setAgentSession machine session) c' := by
  simp [setAgentSession] at h
  obtain ⟨found, hfound, hkind, hnewer, rfl, -⟩ := h
  refine .hello hfound hkind fun current hcurrent => ?_
  simpa [hcurrent] using hnewer

theorem step_of_rebindSession {id : BindingId} (h : rebindSession id session c = .ok effects c') :
    Step c (.rebindSession id session) c' := by
  simp [rebindSession] at h
  obtain ⟨binding, hbinding, ⟨machine, hsession⟩, rfl, -⟩ := h
  exact .rebind hbinding (.rebind hsession)

theorem step_of_advanceEndpointFence (h : advanceEndpointFence node provider fence c = .ok effects c') :
    Step c (.advanceEndpointFence node provider fence) c' := by
  simp [advanceEndpointFence] at h
  obtain ⟨hnode, hpositive, rfl, -⟩ := h
  exact .raise hnode hpositive

theorem step_of_unquarantineNode (h : unquarantineNode node c = .ok effects c') :
    Step c (.unquarantineNode node) c' := by
  simp [unquarantineNode] at h
  obtain ⟨hnode, ⟨hstate, h⟩ | ⟨hstate, -, rfl⟩⟩ := h
  · exact step_of_setNodeState h (.unquarantine hstate)
  · exact .retry (.unquarantine hstate hnode)

/-- A successful dispatch is a step. -/
theorem step_of_dispatch {command : Command} (h : dispatch command c = .ok effects c') :
    Step c command c' := by
  cases command with
  | applyGraph => exact step_of_applyGraph h
  | applyResourceFacts => exact step_of_applyResourceFacts h
  | applyProviderFacts => exact step_of_applyProviderFacts h
  | adoptFactWriters => exact step_of_adoptFactWriters h
  | reserveLease => exact step_of_reserveLease h
  | promoteLease => exact step_of_promoteLease h
  | openLease => exact step_of_openLease h
  | activateLease => exact step_of_activateLease h
  | failLease => exact step_of_failLease h
  | releaseLease => exact step_of_releaseLease h
  | completeLease => exact step_of_completeLease h
  | revokeLease => exact step_of_revokeLease h
  | expireLease => exact step_of_expireLease h
  | renewLease => exact step_of_renewLease h
  | openBinding => exact step_of_openBinding h
  | activateBinding => exact step_of_activateBinding h
  | fenceBinding => exact step_of_fenceBinding h
  | failBinding => exact step_of_failBinding h
  | releaseBinding => exact step_of_releaseBinding h
  | recordBindingPrepared => exact step_of_recordPrepared h
  | recordBindingActive => exact step_of_recordActive h
  | recordBindingReleased => exact step_of_recordReleased h
  | recordBindingFenced => exact step_of_recordFenced h
  | recordBindingFailed => exact step_of_recordFailed h
  | setAgentSession => exact step_of_setAgentSession h
  | setNodeHealth => exact step_of_setNodeHealth h
  | setNodeState => exact step_of_setNodeState h .direct
  | rebindSession => exact step_of_rebindSession h
  | advanceEndpointFence => exact step_of_advanceEndpointFence h
  | quarantineNode => exact step_of_setNodeState h .quarantine
  | unquarantineNode => exact step_of_unquarantineNode h

end Forward

section Backward
variable {c c' : Cluster}

theorem accepted_of_retry {command : Command} (h : Retry c command) :
    ∃ effects, dispatch command c = .ok effects c := by
  cases h with
  | reserve hagreed hlease hstate howner hclaims hexpires =>
    simp [dispatch, reserveLease, hagreed, hlease, hstate, howner, hclaims, hexpires]
  | promote hagreed hlease hstate => simp [dispatch, promoteLease, hagreed, hlease, hstate]
  | openLease hagreed hlease howner hparent hclaims =>
    simp [dispatch, openLease, hagreed, hlease, howner, hparent, hclaims]
  | activate hagreed hlease hstate => simp [dispatch, activateLease, hagreed, hlease, hstate]
  | release hdead hlease hstate => simp [dispatch, releaseLease, hdead, hlease, hstate]
  | expire hlease hstate => simp [dispatch, expireLease, hlease, hstate]
  | @complete _ id lease hlease hstate =>
    refine ⟨c.fenceEffects id, ?_⟩
    simp [dispatch, completeLease, hlease, hstate]
  | renew hagreed hlease hstate hexpires =>
    simp [dispatch, renewLease, hagreed, hlease, hexpires]
    tauto
  | @openBinding _ _ _ _ id binding hbinding hlease hnode hprovider hscope =>
    by_cases hstate : binding.state = .preparing <;>
      simp [dispatch, openBinding, hbinding, hlease, hnode, hprovider, hscope, hstate]
  | activateBinding hbinding hlease hactive hstate =>
    simp [dispatch, activateBinding, hbinding, hlease, hactive, hstate]
  | @fenceBinding id binding hbinding =>
    cases hstate : binding.state <;> simp [dispatch, fenceBinding, hbinding, hstate]
  | failBinding hbinding hclosed => simp [dispatch, failBinding, hbinding, hclosed]
  | @releaseBinding id binding hbinding =>
    cases hstate : binding.state <;>
      simp [dispatch, releaseBinding, hbinding, hstate, BindingState.isClosed]
  | unquarantine hstate hnode => simp [dispatch, unquarantineNode, hstate, hnode]

theorem accepted_of_finish {id : LeaseId} {lease : Lease} {command : Command}
    (hlease : c.leases[id]? = some lease) (h : Ended c id lease command keeps final last) :
    ∃ effects, dispatch command c =
      .ok effects { c with leases := c.endTree id keeps final last } := by
  have hsome : ∀ keeps final, ∃ ended, ((c.descendantsPostorder id).foldl (fun leases descendant =>
      leases.modify descendant (endLease keeps final)) c.leases)[id]? = some ended := by
    intro keeps final
    rw [← Option.isSome_iff_exists, get_foldl_endLease, hlease]
    rfl
  cases h with
  | fail =>
    obtain ⟨ended, hended⟩ := hsome endedKeeps .failed
    simp only [dispatch, failLease, bind_ok, get_ok, cascade_ok, attempt_ok, okOr_ok, ite_ok,
      pure_ok, modify_ok]
    by_cases hkeeps : endedKeeps ended.state
    · refine ⟨_, _, _, ⟨rfl, rfl⟩, _, _, ⟨rfl, rfl⟩, _, _, ⟨rfl, rfl⟩, ended, _, ⟨hended, rfl⟩,
        .inl ⟨hkeeps, rfl, ?_⟩⟩
      rw [endTree, modify_endLease_of_keeps hended hkeeps]
    · refine ⟨_, _, _, ⟨rfl, rfl⟩, _, _, ⟨rfl, rfl⟩, _, _, ⟨rfl, rfl⟩, ended, _, ⟨hended, rfl⟩,
        .inr ⟨hkeeps, (), _, rfl, _, _, ⟨rfl, rfl⟩, rfl, ?_⟩⟩
      rw [endTree, modify_endLease_of_ends hended (by simpa using hkeeps)]
  | revoke =>
    obtain ⟨ended, hended⟩ := hsome endedKeeps .revoked
    obtain ⟨effects, hrun⟩ := revokeCascade_run (c.descendantsPostorder id) c
    simp only [dispatch, revokeLease, bind_ok, get_ok, attempt_ok, okOr_ok, pure_ok, modify_ok]
    exact ⟨_, _, _, ⟨rfl, rfl⟩, _, _, hrun, _, _, ⟨rfl, rfl⟩, ended, _, ⟨hended, rfl⟩, (), _, rfl,
      _, _, ⟨rfl, rfl⟩, rfl, rfl⟩
  | expire hlive hdue =>
    obtain ⟨ended, hended⟩ := hsome endedKeeps .expired
    have hnot : lease.state ≠ .expired := by
      intro he
      simp [he, LeaseState.isLive] at hlive
    simp [dispatch, expireLease, cascade_ok, hlease, hnot, hlive, hended, endTree]
    exact hdue
  | complete hlive =>
    rename_i code
    obtain ⟨ended, hended⟩ := hsome completedKeeps (finalState code)
    have hnot : lease.state ≠ .completed ∧ lease.state ≠ .failed := by
      constructor <;>
      · intro he
        simp [he, LeaseState.isLive] at hlive
    simp [dispatch, completeLease, cascade_ok, hlease, hnot, hlive, hended, endTree]

theorem accepted_of_restate {command : Command} (hcommand : Restated c command node state)
    (h : StateAllowed c node state current) :
    ∃ effects, dispatch command c = .ok effects { c with
      nodeStates := if state = .schedulable then c.nodeStates.erase node
        else c.nodeStates.insert node state } := by
  obtain ⟨hknown, hretired, hclean, hvacant⟩ := h
  have hset : setNodeState node state c = .ok [] { c with
      nodeStates := if state = .schedulable then c.nodeStates.erase node
        else c.nodeStates.insert node state } := by
    simp [setNodeState, hknown]
    exact ⟨hretired, fun hs hc hd binding hmem hopen => hclean hs hc hd binding hmem hopen, hvacant⟩
  cases hcommand with
  | direct => exact ⟨[], hset⟩
  | quarantine => exact ⟨[], hset⟩
  | unquarantine hstate =>
    have hnode : c.graph.node node ≠ none := by
      intro hnone
      simp [nodeState, hnone] at hstate
    refine ⟨[], ?_⟩
    simp [dispatch, unquarantineNode, hnode, hstate]
    exact hset

/-- Every step is taken by the code. -/
theorem accepted_of_step {command : Command} (h : Step c command c') :
    ∃ effects, dispatch command c = .ok effects c' := by
  cases h with
  | retry h => exact accepted_of_retry h
  | install hagreed hstaged hshrunk hrouted =>
    cases hstaged with
    | legacy h =>
      simp [dispatch, applyGraph, installResourceGraph_ok, hagreed, h, hshrunk, hrouted]
    | resource h =>
      simp [dispatch, applyResourceFacts, installResourceGraph_ok, hagreed, h, hshrunk, hrouted]
    | provider h =>
      simp [dispatch, applyProviderFacts, installResourceGraph_ok, hagreed, h, hshrunk, hrouted]
  | annotate h =>
    cases h with
    | adopt hagreed h => simp [dispatch, adoptFactWriters, hagreed, h]
    | observe h => simp [dispatch, setNodeHealth, h]
  | enter hagreed hfresh h =>
    cases h with
    | reserve hclaims hrevision hquarantine hcover =>
      simp [dispatch, reserveLease, hagreed, hfresh, hclaims, hrevision, hquarantine, hcover]
    | openLease hclaims hrevision hquarantine hdelegation =>
      simp [dispatch, openLease, hagreed, hfresh, hclaims, hrevision, hquarantine, hdelegation]
  | advance hagreed hlease h =>
    cases h with
    | promote hstate hclaims hquarantine hclock hcover =>
      simp [dispatch, promoteLease, hagreed, hlease, hstate, hclaims, hquarantine, hcover]
      exact hclock
    | activate hstate hrevision hquarantine hexpiry hdeadline hstanding hprepared =>
      simp [dispatch, activateLease, hagreed, hlease, hstate, hrevision, hquarantine, hstanding,
        hprepared]
      exact ⟨hexpiry, hdeadline⟩
    | renew hstate hlater hclock =>
      have hne := (UInt64.ne_of_lt hlater).symm
      simp [dispatch, renewLease, hagreed, hlease, hne, hlater]
      tauto
  | @release id lease hdead hlease hstate =>
    have hnot : lease.state ≠ .released := by
      rcases hstate with hstate | hstate <;> simp [hstate]
    simp [dispatch, releaseLease, hdead, hlease, hnot]
    tauto
  | finish hlease h => exact accepted_of_finish hlease h
  | bind hfresh hlease hstate hroot hclaim hrequired hprovider hscope hquarantine hmachine
      hsession hendpoint =>
    simp [dispatch, openBinding, issueFence_ok, hfresh, hlease, hstate, hroot, hclaim, hrequired,
      hprovider, hscope, hquarantine, hmachine, hsession, hendpoint]
  | rebind hbinding h =>
    cases h with
    | activate hlease hactive hstate =>
      simp [dispatch, activateBinding, hbinding, hlease, hactive, hstate]
    | fail hopen => simp [dispatch, failBinding, hbinding, hopen]
    | prepared hack hstate =>
      simp [dispatch, recordPrepared, hack]
      tauto
    | active hack hstate => simp [dispatch, recordActive, hack, hstate]
    | released hack => simp [dispatch, recordReleased, recordClosed, hack]
    | fenced hack => simp [dispatch, recordFenced, recordClosed, hack]
    | rebind hsession => simp [dispatch, rebindSession, hbinding, hsession]
  | lose hack hlease => simp [dispatch, recordFailed, hack, hlease]
  | @hello machine session _ hnode hkind hnewer =>
    simp [dispatch, setAgentSession, hnode, hkind]
    cases hcurrent : c.sessions[machine]? with
    | none => simp
    | some current => simpa using hnewer current hcurrent
  | restate hcommand hallowed => exact accepted_of_restate hcommand hallowed
  | raise hnode hpositive => simp [dispatch, advanceEndpointFence, hnode, hpositive]

/-- A command has one outcome. -/
theorem Step.unique {command : Command} {next : Cluster} (h : Step c command c')
    (h' : Step c command next) : c' = next := by
  obtain ⟨effects, hok⟩ := accepted_of_step h
  obtain ⟨effects', hok'⟩ := accepted_of_step h'
  rw [hok] at hok'
  cases hok'
  rfl

end Backward
end Archon.Kernel.Cluster
