import Archon.Kernel.Admission
import Archon.Kernel.Suitable

/-! Whether what placement grants can be bound. Placement looks at contracts,
blocks and remaining quantities; a binding also needs a machine above the node
and an endpoint that no open binding excludes. -/
namespace Archon.Kernel.Cluster
open Fallible Select

/-- Every machine has its agent, and no fence is at its limit. -/
structure Serving (c : Cluster) : Prop where
  agreed : c.agreed = true
  sessions : ∀ node ∈ OrdMap.vals c.graph.nodes, node.kind = .machine → c.sessions[node.id]? ≠ none
  watermarks : ∀ fence ∈ OrdMap.vals c.lastFence, fence.toNat < 2 ^ 64 - 1

/-- Open a binding for each claim, under the contract the graph names for it. -/
def bindClaims (lease : LeaseId) : List (BindingId × Claim) → ClusterM Unit
  | [] => return
  | (binding, claim) :: rest => do
    let self ← get
    let required ← attempt (self.graph.claimBindingForQuantity claim.node claim.quantity)
    let _ ← apply (.openBinding binding lease claim.node required.provider required.scope)
    bindClaims lease rest

/-- What is granted to the request and opened as `lease` can be bound: any of its
claims, in any order, under new binding ids. -/
def GrantBindable (c : Cluster) (lease : LeaseId) (request : Request) : Prop :=
  ∀ allocation owner expiresAt deadline priority effects opened,
    c.allocate request = .ok allocation →
    apply (.openLease lease owner allocation none expiresAt deadline priority) c = .ok effects opened →
    ∀ order : List (BindingId × Claim), List.Subperm (order.map Prod.snd) allocation.claims →
      (order.map Prod.fst).Nodup → (∀ id ∈ order.map Prod.fst, opened.bindings[id]? = none) →
      Succeeds opened (bindClaims lease order)

/-- The node lies beneath a machine, and no open binding excludes one under the
contract of the claim. -/
structure ClaimBindable (c : Cluster) (claim : Claim) : Prop where
  housed : c.graph.machineOf claim.node ≠ none
  free : ∀ required, c.graph.claimBindingForQuantity claim.node claim.quantity = .ok required →
    c.conflictingEndpoint claim.node required.provider required.scope = false

/-- What the need may be granted of one node. -/
def GrantableTo (c : Cluster) (need : Need) (node : NodeId) : Prop :=
  Suits c.graph c.occupancy c.placementBlocked need ⟨node, needUnit need⟩

theorem grantableTo_of_allocate {events : List Event} {request : Request} {allocation : Allocation}
    (h : (run events).allocate request = .ok allocation) :
    (∀ claim ∈ allocation.claims, ∃ need ∈ request.needs, claim.quantity = needUnit need ∧
      (run events).GrantableTo need claim.node) ∧
    ∀ need ∈ request.needs, ∃ claim ∈ allocation.claims, claim.quantity = needUnit need ∧
      (run events).GrantableTo need claim.node := by
  have hfiled := filed_run events
  have hserves : ∀ {allowed need group}, Serves ⟨(run events).graph, (run events).occupancy, request,
      packMode request, (run events).placementBlocked⟩ allowed need group → ∀ claim ∈ group,
      claim.quantity = needUnit need ∧ (run events).GrantableTo need claim.node := by
    intro allowed need group hserves claim hclaim
    have hquantity := quantity_of_serves hserves claim hclaim
    obtain ⟨found, hfound, hmem⟩ := hserves.candidate claim hclaim
    exact ⟨hquantity, suits_of_candidate hfiled hfound hmem rfl⟩
  have hanswered : ∀ {allowed groups}, Answers ⟨(run events).graph, (run events).occupancy, request,
      packMode request, (run events).placementBlocked⟩ allowed groups allocation →
      (∀ claim ∈ allocation.claims, ∃ need ∈ request.needs, claim.quantity = needUnit need ∧
        (run events).GrantableTo need claim.node) ∧
      ∀ need ∈ request.needs, ∃ claim ∈ allocation.claims, claim.quantity = needUnit need ∧
        (run events).GrantableTo need claim.node := by
    intro allowed groups hanswers
    rw [hanswers.claims]
    refine ⟨fun claim hclaim => ?_, fun need hneed => ?_⟩
    · obtain ⟨group, hgroup, hclaim⟩ := List.mem_flatten.mp hclaim
      obtain ⟨need, hneed, hserved⟩ := forall₂_mem_right hanswers.served hgroup
      exact ⟨need, hneed, hserves hserved claim hclaim⟩
    · obtain ⟨group, hgroup, hserved⟩ := forall₂_mem_left hanswers.served hneed
      obtain ⟨claim, hclaim⟩ := hserved.claim
      exact ⟨claim, List.mem_flatten.mpr ⟨group, hgroup, hclaim⟩, hserves hserved claim hclaim⟩
  cases (select_placed h).1 with
  | across hanswers => exact hanswered hanswers
  | onMachine _ _ hanswers => exact hanswered hanswers

/-! Binding what was granted. -/

/-- What a cluster needs to bind the claim of a lease it opened. -/
structure BindReady (c : Cluster) (claim : Claim) : Prop where
  contract : ∃ required, c.graph.claimBindingForQuantity claim.node claim.quantity = .ok required ∧
    c.conflictingEndpoint claim.node required.provider required.scope = false
  clear : c.nodeQuarantined claim.node = false
  routed : ∃ machine session, c.graph.machineOf claim.node = some machine ∧
    c.sessions[machine]? = some session

section Bind
variable {c : Cluster} {leaseId : LeaseId} {lease : Lease} {order : List (BindingId × Claim)}

theorem conflictingEndpoint_insert {after : Cluster} {id : BindingId} {binding : Binding}
    (hbindings : after.bindings = c.bindings.insert id binding) {node : NodeId}
    (hnode : binding.node ≠ node) {provider : ProviderId} {scope : BindingScope}
    (h : c.conflictingEndpoint node provider scope = false) :
    after.conflictingEndpoint node provider scope = false := by
  simp only [conflictingEndpoint, List.any_eq_false, OrdMap.mem_vals, hbindings,
    OrdMap.get_insert] at h ⊢
  rintro existing ⟨key, hkey⟩
  split at hkey
  · cases hkey
    simp [hnode]
  · exact h existing ⟨key, hkey⟩

theorem find_claim {claims : List Claim} (hdistinct : DistinctNodes claims) {claim : Claim}
    (h : claim ∈ claims) : claims.find? (fun other => other.node = claim.node) = some claim := by
  cases hfind : claims.find? (fun other => other.node = claim.node) with
  | none =>
    have hnone := List.find?_eq_none.mp hfind claim h
    simp at hnone
  | some other =>
    have hnode : other.node = claim.node := by simpa using List.find?_some hfind
    rw [List.inj_on_of_nodup_map hdistinct (List.mem_of_find?_eq_some hfind) h hnode]

theorem BindReady.after {after : Cluster} {id : BindingId} {binding : Binding}
    (hgraph : after.graph = c.graph) (hsessions : after.sessions = c.sessions)
    (hstates : after.nodeStates = c.nodeStates)
    (hbindings : after.bindings = c.bindings.insert id binding) {claim : Claim}
    (hnode : binding.node ≠ claim.node) (h : c.BindReady claim) : after.BindReady claim := by
  obtain ⟨⟨required, hrequired, hendpoint⟩, hclear, hrouted⟩ := h
  refine ⟨⟨required, ?_, conflictingEndpoint_insert hbindings hnode hendpoint⟩, ?_, ?_⟩
  · rw [hgraph]
    exact hrequired
  · simp only [nodeQuarantined, hgraph, hstates] at hclear ⊢
    exact hclear
  · rw [hgraph, hsessions]
    exact hrouted

/-- The claims of an opened lease are bound one after the other: each binding is
on its own node and leaves the endpoints of the others alone. -/
theorem succeeds_bindClaims (hlease : c.leases[leaseId]? = some lease)
    (hstate : lease.state = .preparing) (hroot : lease.parent = none)
    (hdistinct : DistinctNodes lease.allocation.claims)
    (hclaims : ∀ entry ∈ order, entry.2 ∈ lease.allocation.claims)
    (hnodes : (order.map fun entry => entry.2.node).Nodup) (hids : (order.map Prod.fst).Nodup)
    (hfresh : ∀ id ∈ order.map Prod.fst, c.bindings[id]? = none)
    (hready : ∀ entry ∈ order, c.BindReady entry.2) : Succeeds c (bindClaims leaseId order) := by
  induction order generalizing c with
  | nil => exact succeeds_pure _ _
  | cons entry rest ih =>
    obtain ⟨id, claim⟩ := entry
    obtain ⟨⟨required, hrequired, hendpoint⟩, hclear, machine, session, hmachine, hsession⟩ :=
      hready _ List.mem_cons_self
    rw [List.map_cons, List.nodup_cons] at hnodes hids
    have hstep := Step.bind (hfresh id List.mem_cons_self) hlease hstate hroot
      (find_claim hdistinct (hclaims _ List.mem_cons_self)) hrequired rfl rfl hclear hmachine hsession
      hendpoint
    obtain ⟨effects, happly⟩ := apply_ok_iff.mpr ⟨_, hstep, rfl⟩
    have hrest : ∀ other ∈ rest, claim.node ≠ other.2.node := fun other hother heq =>
      hnodes.1 (List.mem_map.mpr ⟨other, hother, heq.symm⟩)
    have hlater : ∀ other ∈ rest.map Prod.fst, id ≠ other := fun other hother heq =>
      hids.1 (heq ▸ hother)
    let bound : Binding := {
      id, lease := leaseId, node := claim.node, provider := required.provider, scope := required.scope
      fence := c.issuedFence id claim.node required.provider required.scope, agentSession := session
      state := .preparing, providerHandle := none }
    let after : Cluster := { c with
      lastFence := c.issuedFences claim.node required.provider required.scope
      bindings := c.bindings.insert id bound
      log := c.log ++ [.openBinding id leaseId claim.node required.provider required.scope] }
    have hsucceeds : Succeeds after (bindClaims leaseId rest) := by
      refine ih hlease (fun other hother => hclaims other (List.mem_cons_of_mem _ hother)) hnodes.2
        hids.2 (fun other hother => ?_) fun other hother => ?_
      · have hkept : after.bindings[other]? = c.bindings[other]? := by
          simp only [after, OrdMap.get_insert, hlater other hother, if_false]
        rw [hkept]
        exact hfresh other (List.mem_cons_of_mem _ hother)
      · exact @BindReady.after c after id bound rfl rfl rfl rfl _ (hrest other hother)
          (hready other (List.mem_cons_of_mem _ hother))
    obtain ⟨_, t, hrun⟩ := hsucceeds
    refine ⟨(), t, ?_⟩
    simp only [bindClaims, bind_ok, get_ok, attempt_ok]
    exact ⟨_, _, ⟨rfl, rfl⟩, required, _, ⟨hrequired, rfl⟩, effects, _, happly, hrun⟩

end Bind

theorem opened_grant {events : List Event} (hagreed : (run events).agreed = true) {request : Request}
    {allocation : Allocation} (hallocate : (run events).allocate request = .ok allocation)
    {leaseId : LeaseId} (hfresh : (run events).leases[leaseId]? = none) (owner : OwnerId)
    (expiresAt deadline : UInt64) (priority : UInt32) :
    ∃ effects lease log,
      apply (.openLease leaseId owner allocation none expiresAt deadline priority) (run events) =
        .ok effects { run events with leases := (run events).leases.insert leaseId lease, log } ∧
      lease.state = .preparing ∧ lease.parent = none ∧ lease.allocation.claims = allocation.claims := by
  have hsound := select_sound hallocate
  obtain ⟨hclaims, hquarantine, hcover⟩ := granted_checks (wellFormed_run events) hfresh
    hsound.distinct (grant_of_allocate hallocate)
  have hadmitted : Admitted (run events)
      (.openLease leaseId owner allocation none expiresAt deadline priority) _ :=
    .openLease hclaims hsound.revision hquarantine hcover
  have hstep := Step.enter hagreed hfresh hadmitted
  obtain ⟨effects, happly⟩ := apply_ok_iff.mpr ⟨_, hstep, rfl⟩
  exact ⟨effects, _, _, happly, rfl, rfl, rfl⟩

theorem session_of_machineOf {c : Cluster} (hserving : c.Serving) (hfiled : c.graph.Filed)
    {node : NodeId} (h : c.graph.machineOf node ≠ none) :
    ∃ machine session, c.graph.machineOf node = some machine ∧ c.sessions[machine]? = some session := by
  obtain ⟨machine, hmachine⟩ := Option.ne_none_iff_exists'.mp h
  have hkind : c.graph.hasKind machine .machine = true := by
    unfold Graph.machineOf Graph.ancestorOfClass at hmachine
    split at hmachine
    · rename_i hself
      cases hmachine
      exact hself
    · exact @List.find?_some _ (fun ancestor => c.graph.hasKind ancestor .machine) _ _ hmachine
  obtain ⟨found, hfound, hkind⟩ := (Option.any_eq_true _ _).mp hkind
  rw [decide_eq_true_eq] at hkind
  have hsession := hserving.sessions found (OrdMap.mem_vals.mpr ⟨machine, hfound⟩) hkind
  rw [hfiled.key _ _ hfound] at hsession
  obtain ⟨session, hsession⟩ := Option.ne_none_iff_exists'.mp hsession
  exact ⟨machine, session, hmachine, hsession⟩

theorem grantBindable_of_claims {events : List Event} (hserving : (run events).Serving)
    {leaseId : LeaseId} (hfresh : (run events).leases[leaseId]? = none) {request : Request}
    (h : ∀ allocation, (run events).allocate request = .ok allocation →
      ∀ claim ∈ allocation.claims, (run events).ClaimBindable claim) :
    (run events).GrantBindable leaseId request := by
  intro allocation owner expiresAt deadline priority effects opened hallocate hopened order horder hids
    hnew
  obtain ⟨effects', lease, log, happly, hstate, hroot, hclaims⟩ := opened_grant hserving.agreed hallocate
    hfresh owner expiresAt deadline priority
  rw [happly] at hopened
  cases hopened
  have hdistinct := (select_sound hallocate).distinct
  obtain ⟨sorted, hperm, hsub⟩ := horder
  have hmem : ∀ entry ∈ order, entry.2 ∈ allocation.claims := fun entry hentry =>
    hsub.subset (hperm.mem_iff.mpr (List.mem_map_of_mem hentry))
  refine succeeds_bindClaims (by simp) hstate hroot (hclaims ▸ hdistinct)
    (fun entry hentry => hclaims ▸ hmem entry hentry) ?_ hids hnew fun entry hentry => ?_
  · have hnodes : (sorted.map Claim.node).Nodup := hdistinct.sublist (hsub.map _)
    have hsame := hperm.map Claim.node
    rw [List.map_map] at hsame
    exact hsame.nodup_iff.mp hnodes
  · obtain ⟨required, hgrant⟩ := grant_of_allocate hallocate _ (hmem entry hentry)
    obtain ⟨hmachine, hfree⟩ := h allocation hallocate _ (hmem entry hentry)
    exact ⟨⟨required, hgrant.contract, hfree required hgrant.contract⟩, hgrant.clear,
      session_of_machineOf hserving (filed_run events) hmachine⟩

theorem claims_of_grantBindable {events : List Event} (hserving : (run events).Serving)
    {leaseId : LeaseId} (hfresh : (run events).leases[leaseId]? = none) {spare : BindingId}
    (hspare : (run events).bindings[spare]? = none) {request : Request}
    (h : (run events).GrantBindable leaseId request) {allocation : Allocation}
    (hallocate : (run events).allocate request = .ok allocation) :
    ∀ claim ∈ allocation.claims, (run events).ClaimBindable claim := by
  intro claim hclaim
  obtain ⟨effects, lease, log, happly, hstate, hroot, hclaims⟩ := opened_grant hserving.agreed hallocate
    hfresh 0 0 0 0
  have hsucceeds := h allocation 0 0 0 0 effects _ hallocate happly [(spare, claim)]
    (List.singleton_subperm_iff.mpr hclaim) (by simp) (by simpa using hspare)
  obtain ⟨_, t, hbound⟩ := hsucceeds
  simp only [bindClaims, bind_ok, get_ok, attempt_ok, pure_ok] at hbound
  obtain ⟨_, _, ⟨rfl, rfl⟩, found, _, ⟨hfound, rfl⟩, effects', next, happly, -⟩ := hbound
  obtain ⟨c', hstep, -⟩ := apply_ok_iff.mp ⟨effects', happly⟩
  cases hstep with
  | retry h =>
    cases h with
    | openBinding hbinding =>
      rw [hspare] at hbinding
      cases hbinding
  | bind _ _ _ _ _ _ _ _ _ hmachine _ hendpoint =>
    refine ⟨by rw [hmachine]; simp, fun required hrequired => ?_⟩
    obtain rfl : found = required := Except.ok.inj (hfound.symm.trans hrequired)
    exact hendpoint
  | install _ h => cases h
  | annotate h => cases h
  | enter _ _ h => cases h
  | advance _ _ h => cases h
  | finish _ h => cases h
  | rebind _ h => cases h
  | restate h => cases h

/-- A grant can be bound exactly when each of its claims can. It can be when all
that its needs may be granted can be bound, and cannot where nothing that one of
them may be granted can. -/
theorem grant_bindable_iff (events : List Event) (hserving : (run events).Serving)
    (leaseId : LeaseId) (hfresh : (run events).leases[leaseId]? = none) (spare : BindingId)
    (hspare : (run events).bindings[spare]? = none) (request : Request) :
    ((run events).GrantBindable leaseId request ↔
      ∀ allocation, (run events).allocate request = .ok allocation →
        ∀ claim ∈ allocation.claims, (run events).ClaimBindable claim) ∧
    ((∀ need ∈ request.needs, ∀ node, (run events).GrantableTo need node →
        (run events).ClaimBindable ⟨node, needUnit need⟩) →
      (run events).GrantBindable leaseId request) ∧
    ∀ need ∈ request.needs, (∀ node, (run events).GrantableTo need node →
        ¬(run events).ClaimBindable ⟨node, needUnit need⟩) →
      ∀ allocation, (run events).allocate request = .ok allocation →
        ¬(run events).GrantBindable leaseId request := by
  refine ⟨⟨fun h _ hallocate => claims_of_grantBindable hserving hfresh hspare h hallocate,
    grantBindable_of_claims hserving hfresh⟩, fun hall => ?_, fun need hneed hnone => ?_⟩
  · refine grantBindable_of_claims hserving hfresh fun allocation hallocate claim hclaim => ?_
    obtain ⟨need, hneed, hquantity, hgrantable⟩ :=
      (grantableTo_of_allocate hallocate).1 claim hclaim
    have hbindable := hall need hneed claim.node hgrantable
    rwa [← hquantity] at hbindable
  · intro allocation hallocate hbindable
    obtain ⟨claim, hclaim, hquantity, hgrantable⟩ :=
      (grantableTo_of_allocate hallocate).2 need hneed
    have hclaims := claims_of_grantBindable hserving hfresh hspare hbindable hallocate claim hclaim
    rw [show claim = ⟨claim.node, needUnit need⟩ by rw [← hquantity]] at hclaims
    exact hnone claim.node hgrantable hclaims

/-- Half of the gpu is bound; the memory beside it is free. -/
def Sample.halfBound : List Event := [
  .apply (.applyResourceFacts
    [⟨1, .machine, ∅, ∅⟩, ⟨2, .gpu, ∅, Sample.units 2⟩, ⟨3, .memory, ∅, qty .bytes 4096⟩]
    [⟨1, 2, .contains, ∅⟩, ⟨1, 3, .contains, ∅⟩]
    [⟨2, .count, some ⟨.enforce, .exclusive⟩⟩, ⟨3, .bytes, some ⟨.enforce, .exclusive⟩⟩]),
  .apply (.setAgentSession 1 1),
  Sample.openLease 1 1 none,
  .apply (.openBinding 1 1 2 .enforce .exclusive)]

/-- A page of memory. -/
def Sample.pageRequest : Request := { Sample.request with needs := [⟨.memory, qty .bytes 512, []⟩] }

theorem serving_halfBound : (run Sample.halfBound).Serving := by
  have hfences : OrdMap.vals (run Sample.halfBound).lastFence = [1] := by decide +kernel
  exact ⟨by decide +kernel, by decide +kernel, by simp [hfences]⟩

theorem halfBound_fresh : (run Sample.halfBound).leases[(2 : LeaseId)]? = none ∧
    (run Sample.halfBound).bindings[(2 : BindingId)]? = none := by
  decide +kernel

/-- The memory is granted and can be bound, whatever became of the gpu. -/
theorem host_grants_bindable :
    (∃ allocation, (run Sample.halfBound).allocate Sample.pageRequest = .ok allocation) ∧
      (run Sample.halfBound).GrantBindable 2 Sample.pageRequest := by
  have hgranted : ((run Sample.halfBound).allocate Sample.pageRequest).toOption.isSome := by
    decide +kernel
  obtain ⟨allocation, hallocation⟩ := Option.isSome_iff_exists.mp hgranted
  refine ⟨⟨allocation, ok_of_toOption hallocation⟩, ?_⟩
  refine (grant_bindable_iff Sample.halfBound serving_halfBound 2 halfBound_fresh.1 2 halfBound_fresh.2
    Sample.pageRequest).2.1 fun need hneed node hgrantable => ?_
  rw [List.mem_singleton.mp hneed] at hgrantable ⊢
  have hmemory : ∀ id ∈ (run Sample.halfBound).graph.nodes.keys,
      ((run Sample.halfBound).graph.node id).any (fun item => item.kind = .memory) = true → id = 3 := by
    have hkeys : (run Sample.halfBound).graph.nodes.keys = [1, 2, 3] := by decide +kernel
    rw [hkeys]
    decide +kernel
  obtain ⟨item, hitem, hkind, -⟩ := hgrantable.fits
  obtain rfl : node = 3 := by
    refine hmemory node (Std.ExtTreeMap.mem_keys.mpr ?_) (by simp [hitem, hkind])
    rw [Std.ExtTreeMap.mem_iff_isSome_getElem?, ← Graph.node, hitem]
    rfl
  have hfree : ∀ provider scope,
      (run Sample.halfBound).conflictingEndpoint 3 provider scope = false := by
    have hbound : (OrdMap.vals (run Sample.halfBound).bindings).map (fun binding => binding.node) =
        [2] := by
      decide +kernel
    intro provider scope
    rw [conflictingEndpoint, List.any_eq_false]
    intro binding hbinding
    have hnode : binding.node ∈ (OrdMap.vals (run Sample.halfBound).bindings).map
        (fun binding => binding.node) := List.mem_map.mpr ⟨binding, hbinding, rfl⟩
    rw [hbound, List.mem_singleton] at hnode
    simp [hnode, show (2 : NodeId) ≠ 3 by decide]
  exact ⟨by decide +kernel, fun required _ => hfree required.provider required.scope⟩

/-- The other half of the gpu is granted, but the exclusive endpoint is taken. -/
theorem half_bound_gpu_not_bindable :
    ¬∀ (events : List Event) (leaseId : LeaseId) (request : Request), (run events).Serving →
      (run events).leases[leaseId]? = none → (run events).GrantBindable leaseId request := by
  intro h
  have hclaims : ((run Sample.halfBound).allocate Sample.request).toOption.map
      (fun allocation => allocation.claims) = some [⟨2, Sample.units 1⟩] := by
    decide +kernel
  obtain ⟨allocation, hallocate, hclaims⟩ := Option.map_eq_some_iff.mp hclaims
  have hbindable := claims_of_grantBindable serving_halfBound halfBound_fresh.1 halfBound_fresh.2
    (h Sample.halfBound 2 Sample.request serving_halfBound halfBound_fresh.1) (ok_of_toOption hallocate)
    ⟨2, Sample.units 1⟩ (by rw [hclaims]; exact List.mem_singleton_self _)
  have hcontract : (run Sample.halfBound).graph.claimBindingForQuantity 2 (Sample.units 1) =
      .ok ⟨.enforce, .exclusive⟩ := by
    decide +kernel
  have htaken : (run Sample.halfBound).conflictingEndpoint 2 .enforce .exclusive = true := by
    decide +kernel
  have hfree := hbindable.free _ hcontract
  rw [htaken] at hfree
  cases hfree

end Archon.Kernel.Cluster
