import Archon.Kernel.NodeStates
import Archon.Kernel.Routing

/-! Retired nodes. Retirement is checked against the containment of its moment,
and no lease is admitted beneath a retired node; a later update of the graph is
not checked, so it can put a claimed node beneath one. -/
namespace Archon.Kernel
open Fallible

namespace Graph

/-- The containment index holds exactly the containment edges. -/
def Indexed (graph : Graph) : Prop :=
  ∀ above below : NodeId, graph.parent[below]? = some above ↔
    graph.edgesAt ⟨above, below, .contains⟩ ≠ []

theorem edgesAt_ne_nil {graph : Graph} {key : FactEdge} :
    graph.edgesAt key ≠ [] ↔ ∃ edge ∈ graph.edges, edge.key = key := by
  simp [edgesAt, List.filter_eq_nil_iff]

theorem stageContainers_ok {edges : List Edge} {parent result : OrdMap NodeId NodeId}
    (h : edges.foldlM stageContainer parent = .ok result) (above below : NodeId) :
    result[below]? = some above ↔ parent[below]? = some above ∨
      ∃ edge ∈ edges, edge.key = ⟨above, below, .contains⟩ := by
  induction edges generalizing parent with
  | nil =>
    cases h
    simp
  | cons edge rest ih =>
    rw [List.foldlM_cons, check_bind_ok] at h
    obtain ⟨staged, hstaged, hrest⟩ := h
    have hhead : staged[below]? = some above ↔
        parent[below]? = some above ∨ edge.key = ⟨above, below, .contains⟩ := by
      unfold stageContainer at hstaged
      split at hstaged
      · rename_i hkind
        cases hstaged
        simp [Edge.key, hkind]
      · rename_i hkind
        simp only [check_bind_ok, refuseIf_ok, check_pure_ok] at hstaged
        obtain ⟨_, -, _, hsingle, rfl⟩ := hstaged
        rw [OrdMap.get_insert]
        split
        · rename_i heq
          subst heq
          cases hparent : parent[edge.toNode]? with
          | none => simp_all [Edge.key, eq_comm]
          | some previous =>
            simp only [hparent, Option.any_some, decide_eq_true_eq, ne_eq, not_not] at hsingle
            simp_all [Edge.key, eq_comm]
        · rename_i heq
          simp [Edge.key, heq]
    rw [ih hrest, hhead, List.exists_mem_cons_iff, or_assoc]

theorem Revised.indexed {before after : Graph} {nodes : List Node} {edges : List Edge}
    (h : Revised before after nodes edges) : Indexed after := by
  intro above below
  have hvalid := h.valid
  simp only [validateContains, check_bind_ok] at hvalid
  obtain ⟨parent, hparent, -⟩ := hvalid
  have hsame : parent = containers after.edges := foldlM_stageContainer_ok hparent
  rw [h.parent, ← hsame, stageContainers_ok hparent, edgesAt_ne_nil]
  simp

/-- What an update makes of the containment: the keys it adds and a fresh index. -/
structure Grown (before after : Graph) (edges : List Edge) : Prop where
  keys : ∀ key, after.edgesAt key ≠ [] ↔ before.edgesAt key ≠ [] ∨ key ∈ edges.map Edge.key
  indexed : Indexed before → Indexed after

theorem Grown.refl (graph : Graph) : Grown graph graph [] :=
  ⟨fun _ => by simp, fun h => h⟩

theorem applyBatches_grown {batches : List ProviderFactBatch} {staging staged : Staging}
    (h : batches.foldlM applyBatch staging = .ok staged) :
    Grown staging.graph staged.graph (batches.flatMap ProviderFactBatch.edges) := by
  induction batches generalizing staging with
  | nil =>
    cases h
    exact .refl _
  | cons batch rest ih =>
    rw [List.foldlM_cons, check_bind_ok] at h
    obtain ⟨next, hnext, hrest⟩ := h
    have htail := ih hrest
    simp only [applyBatch, check_bind_ok, check_pure_ok] at hnext
    obtain ⟨_, -, _, -, applied, happlied, rfl⟩ := hnext
    have hrevised := applyFactValues_revised happlied
    constructor
    · intro key
      have hhead : _ ↔ _ := hrevised.edgeKeys key
      rw [htail.keys key, List.flatMap_cons, List.map_append, List.mem_append, ← or_assoc, ← hhead]
      rfl
    · exact fun _ => htail.indexed hrevised.indexed

end Graph

namespace Cluster
open Archon.Kernel.Graph

/-- The edges a command brings. -/
def broughtEdges : Command → List Edge
  | .applyGraph _ edges => edges
  | .applyResourceFacts _ edges _ => edges
  | .applyProviderFacts batches _ => batches.flatMap ProviderFactBatch.edges
  | _ => []

section Step
variable {c c' : Cluster} {command : Command}

theorem Staged.grown {graph staged : Graph} (h : Staged graph command staged) :
    Grown graph staged (broughtEdges command) := by
  have happly : ∀ {before after : Graph} {nodes : List Node} {edges : List Edge},
      before.apply nodes edges = .ok after → Grown before after edges := by
    intro before after nodes edges happly
    simp only [Graph.apply, check_bind_ok, check_pure_ok] at happly
    obtain ⟨_, -, applied, happlied, rfl⟩ := happly
    have hrevised := applyFactValues_revised happlied
    exact ⟨hrevised.edgeKeys, fun _ => hrevised.indexed⟩
  cases h with
  | legacy hlegacy => exact happly hlegacy
  | resource hfacts =>
    simp only [Graph.applyResourceFacts, check_bind_ok, check_pure_ok] at hfacts
    obtain ⟨_, -, _, hwithdrawn, applied, happlied, added, hadded, _, -, rfl⟩ := hfacts
    obtain ⟨_, rfl⟩ := setClaimBindings_frame hwithdrawn
    obtain ⟨_, rfl⟩ := setClaimBindings_frame hadded
    have hgrown := happly happlied
    exact ⟨hgrown.keys, hgrown.indexed⟩
  | provider hfacts =>
    simp only [Graph.applyProviderFacts, check_bind_ok, check_pure_ok] at hfacts
    obtain ⟨_, -, _, hwithdrawn, staging, hbatches, added, hadded, _, -, rfl⟩ := hfacts
    obtain ⟨_, rfl⟩ := setClaimBindings_frame hwithdrawn
    obtain ⟨_, rfl⟩ := setClaimBindings_frame hadded
    have hgrown := applyBatches_grown hbatches
    exact ⟨hgrown.keys, hgrown.indexed⟩

theorem Annotated.grown {staged : Graph} (h : Annotated c command staged) :
    Grown c.graph staged (broughtEdges command) := by
  cases h with
  | adopt _ hadopted =>
    simp only [Graph.adoptFactWriters, check_bind_ok, check_pure_ok] at hadopted
    obtain ⟨_, -, rfl⟩ := hadopted
    exact ⟨(Grown.refl _).keys, fun h => h⟩
  | observe hobserved =>
    unfold Graph.setObservation at hobserved
    split at hobserved
    · cases hobserved
      exact ⟨(Grown.refl _).keys, fun h => h⟩
    · cases hobserved

theorem graph_grown (hstep : Step c command c') :
    Grown c.graph c'.graph (broughtEdges command) := by
  cases hstep with
  | install _ hstaged => exact hstaged.grown
  | annotate hannotated => exact hannotated.grown
  | retry h => cases h <;> exact .refl _
  | enter _ _ h => cases h <;> exact .refl _
  | advance _ _ h => cases h <;> exact .refl _
  | finish _ h => cases h <;> exact .refl _
  | rebind _ h => cases h <;> exact .refl _
  | restate h => cases h <;> exact .refl _
  | release | bind | lose | hello | raise => exact .refl _

end Step

theorem indexed_run (events : List Event) : Indexed (run events).graph := by
  refine @run_invariant (fun c => Indexed c.graph) ?_ (fun _ _ _ _ _ h => h)
    (fun _ _ _ hstep h => (graph_grown hstep).indexed h) events
  intro above below
  simp [new, Graph.new, edgesAt]

/-! Authority beneath retired nodes. -/

/-- The containment once the command's edges are added. -/
def Attached (c : Cluster) (command : Command) (above below : NodeId) : Prop :=
  c.graph.edgesAt ⟨above, below, .contains⟩ ≠ [] ∨
    ⟨above, below, .contains⟩ ∈ (broughtEdges command).map Edge.key

/-- An event is an accepted update whose edges, with those of the graph, lead
from a retired node down to a claim of an occupying lease. -/
def BuriesAuthority (c : Cluster) (event : Event) : Prop :=
  ∃ command, event = .apply command ∧ c.accepts command ∧
    ∃ (retired : NodeId) (id : LeaseId) (lease : Lease) (claim : Claim),
      c.nodeState retired = some .retired ∧ c.leases[id]? = some lease ∧ c.occupies id ∧
      claim ∈ lease.allocation.claims ∧ Relation.TransGen (c.Attached command) retired claim.node

/-- No occupying lease has a claim on a retired node or beneath one. -/
def Vacant (c : Cluster) : Prop :=
  ∀ (retired : NodeId) (id : LeaseId) (lease : Lease) (claim : Claim),
    c.nodeState retired = some .retired → c.leases[id]? = some lease → c.occupies id →
    claim ∈ lease.allocation.claims →
    claim.node ≠ retired ∧ retired ∉ c.graph.ancestors claim.node

section Step
variable {c c' : Cluster} {command : Command}

theorem mem_ancestors_iff {graph : Graph} (hindexed : Indexed graph) (hgrounded : Grounded graph.parent)
    {above node : NodeId} : above ∈ graph.ancestors node ↔ Relation.TransGen
      (fun above below => graph.edgesAt ⟨above, below, .contains⟩ ≠ []) above node := by
  have hclimb : above ∈ graph.ancestors node ↔ Relation.TransGen
      (fun above below : NodeId => graph.parent[below]? = some above) above node :=
    Forest.mem_climb_iff hgrounded
  rw [hclimb]
  have hsame : (fun above below : NodeId => graph.parent[below]? = some above) =
      fun above below => graph.edgesAt ⟨above, below, .contains⟩ ≠ [] := by
    funext above below
    exact propext (hindexed above below)
  rw [hsame]

theorem mem_ancestors_step (hstep : Step c command c') (hindexed : Indexed c.graph)
    (hgrounded : Grounded c.graph.parent) {above node : NodeId} :
    above ∈ c'.graph.ancestors node ↔ Relation.TransGen (c.Attached command) above node := by
  have hgrown := graph_grown hstep
  rw [mem_ancestors_iff (hgrown.indexed hindexed) (grounded_step hstep hgrounded)]
  have hsame : (fun above below => c'.graph.edgesAt ⟨above, below, .contains⟩ ≠ []) =
      c.Attached command := by
    funext above below
    exact propext (hgrown.keys _)
  rw [hsame]

theorem not_retired_of_not_quarantined {node : NodeId} (h : c.nodeQuarantined node = false)
    {above : NodeId} (habove : above = node ∨ above ∈ c.graph.ancestors node) :
    c.nodeState above ≠ some .retired := by
  intro hretired
  obtain ⟨-, hentry⟩ := nodeState_eq_some.mp hretired
  simp only [nodeQuarantined, Bool.or_eq_false_iff, List.any_eq_false] at h
  have hblocked : c.nodeStates[above]?.any (fun state => !state.isSchedulable) = true := by
    cases hstate : c.nodeStates[above]? with
    | none => simp [hstate] at hentry
    | some state =>
      simp only [hstate, Option.getD_some] at hentry
      simp [hentry, NodeState.isSchedulable]
  rcases habove with rfl | habove
  · rw [hblocked] at h
    cases h.1
  · exact h.2 above habove hblocked

theorem Admitted.not_retired {lease : Lease} (h : Admitted c command lease) {claim : Claim}
    (hclaim : claim ∈ lease.allocation.claims) {above : NodeId}
    (habove : above = claim.node ∨ above ∈ c.graph.ancestors claim.node) :
    c.nodeState above ≠ some .retired := by
  have hquarantine : c.refuseQuarantined lease.allocation.claims = .ok () := by
    cases h with
    | reserve _ _ hquarantine => exact hquarantine
    | openLease _ _ hquarantine => exact hquarantine
  simp only [refuseQuarantined, List.forM_eq_forM, forM_ok, refuseIf_ok, Bool.not_eq_true]
    at hquarantine
  exact not_retired_of_not_quarantined (hquarantine claim hclaim) habove

theorem nodeHasLiveAuthority_eq_false (h : LeasesWellFormed c.leases) {node : NodeId} :
    c.nodeHasLiveAuthority node = false ↔
      (∀ (id : LeaseId) (lease : Lease), c.leases[id]? = some lease → c.occupies id →
        ∀ claim ∈ lease.allocation.claims,
          claim.node ≠ node ∧ node ∉ c.graph.ancestors claim.node) ∧
      ∀ (id : BindingId) (binding : Binding), c.bindings[id]? = some binding →
        binding.state.isClosed = false →
        binding.node ≠ node ∧ node ∉ c.graph.ancestors binding.node := by
  simp only [nodeHasLiveAuthority, Bool.or_eq_false_iff, List.any_eq_false, OrdMap.mem_vals,
    Bool.and_eq_true, List.any_eq_true, Bool.or_eq_true, decide_eq_true_eq, not_and, not_or,
    not_exists, forall_exists_index, Bool.not_eq_true']
  refine and_congr ⟨fun hfree id lease hlease => ?_, fun hfree lease id hlease => ?_⟩ forall_comm
  · have hlaw := hfree lease id hlease
    rwa [h.key hlease] at hlaw
  · rw [h.key hlease]
    exact hfree id lease hlease

/-- Only known nodes have a state of their own. -/
def StatesKnown (c : Cluster) : Prop :=
  ∀ (node : NodeId) (state : NodeState), c.nodeStates[node]? = some state →
    c.graph.nodes[node]? ≠ none

theorem statesKnown_step (h : StatesKnown c) (hstep : Step c command c') : StatesKnown c' := by
  intro node state hstate
  refine (facts_step hstep).1.kept node ?_
  cases hstep with
  | @restate _ target _ _ _ hallowed =>
    by_cases htarget : target = node
    · subst htarget
      exact (nodeState_eq_some.mp hallowed.known).1
    · simp only at hstate
      refine h node state ?_
      split at hstate <;>
        simpa [Std.ExtTreeMap.getElem?_erase, OrdMap.get_insert, htarget] using hstate
  | retry | install | annotate | enter | advance | release | finish | bind | rebind | lose | hello
  | raise => exact h node state hstate

/-- A node that is retired after a step was retired, or has just been found
without authority, and then nothing else moved. -/
theorem retired_origin (h : StatesKnown c) (hstep : Step c command c') {node : NodeId}
    (hretired : c'.nodeState node = some .retired) :
    c.nodeState node = some .retired ∨ (c.nodeHasLiveAuthority node = false ∧
      c'.leases = c.leases ∧ c'.bindings = c.bindings ∧ c'.graph = c.graph) := by
  cases hbefore : c.nodeState node with
  | none =>
    have hunknown : c.graph.nodes[node]? = none := by
      by_contra hsome
      rw [nodeState_eq_some.mpr ⟨hsome, rfl⟩] at hbefore
      cases hbefore
    have hentry := (nodeState_eq_some.mp hretired).2
    cases hstep with
    | @restate _ target _ _ _ hallowed =>
      obtain ⟨hknown, -⟩ := nodeState_eq_some.mp hretired
      exact absurd hunknown hknown
    | retry | install | annotate | enter | advance | release | finish | bind | rebind | lose | hello
    | raise =>
      cases hstate : c.nodeStates[node]? with
      | none => simp [hstate] at hentry
      | some state => exact absurd hunknown (h node state hstate)
  | some state =>
    rcases nodeState_step hstep hbefore with hsame | ⟨next, hrestated, hallowed, hset⟩
    · rw [hretired] at hsame
      exact .inl hsame.symm
    · rw [hretired] at hset
      cases hset
      rw [hstep.unique (.restate hrestated hallowed)]
      exact .inr ⟨hallowed.vacant rfl, rfl, rfl, rfl⟩

theorem vacant_step (h : WellFormed c) (hknown : StatesKnown c) (hindexed : Indexed c.graph)
    (hgrounded : Grounded c.graph.parent) (hvacant : Vacant c) (hstep : Step c command c')
    (hspared : ¬c.BuriesAuthority (.apply command)) : Vacant c' := by
  intro retired id lease' claim hretired hlease' hoccupies hclaim
  have habove : ∀ above, above ∈ c'.graph.ancestors claim.node →
      Relation.TransGen (c.Attached command) above claim.node :=
    fun above => (mem_ancestors_step hstep hindexed hgrounded).mp
  rcases retired_origin hknown hstep hretired with hwas | ⟨hfree, hleases, hbindings, hgraph⟩
  · rcases (leases_evolve h.leases hstep).origin hlease' with
      ⟨lease, hlease, hmoves⟩ | ⟨-, -, hadmitted⟩
    · have hheld := occupies_step h hstep hlease hoccupies
      rw [hmoves.claims] at hclaim
      refine ⟨(hvacant retired id lease claim hwas hlease hheld hclaim).1, fun hmem => ?_⟩
      exact hspared ⟨command, rfl, accepts_iff.mpr ⟨c', hstep⟩, retired, id, lease, claim, hwas,
        hlease, hheld, hclaim, habove retired hmem⟩
    · refine ⟨fun heq => hadmitted.not_retired hclaim (.inl heq.symm) hwas, fun hmem => ?_⟩
      -- opening a lease brings no edge
      have hsame : c.Attached command =
          fun above below => c.graph.edgesAt ⟨above, below, .contains⟩ ≠ [] := by
        funext above below
        cases hadmitted <;> simp [Attached, broughtEdges]
      have hmem := habove retired hmem
      rw [hsame, ← mem_ancestors_iff hindexed hgrounded] at hmem
      exact hadmitted.not_retired hclaim (.inr hmem) hwas
  · have hsame : c'.occupies id = c.occupies id := by
      simp only [occupies, openBindings, hleases, hbindings]
    rw [hleases] at hlease'
    rw [hsame] at hoccupies
    rw [hgraph]
    exact ((nodeHasLiveAuthority_eq_false h.leases).mp hfree).1 id lease' hlease' hoccupies claim hclaim

theorem brought_frame (hstep : Step c command c') (h : broughtEdges command ≠ []) :
    c'.leases = c.leases ∧ c'.bindings = c.bindings ∧ c'.nodeStates = c.nodeStates := by
  cases hstep with
  | install | annotate => exact ⟨rfl, rfl, rfl⟩
  | retry => exact ⟨rfl, rfl, rfl⟩
  | enter _ _ hadmitted => cases hadmitted <;> exact absurd rfl h
  | advance _ _ hadvanced => cases hadvanced <;> exact absurd rfl h
  | finish _ hended => cases hended <;> exact absurd rfl h
  | rebind _ hrebound => cases hrebound <;> exact absurd rfl h
  | restate hrestated => cases hrestated <;> exact absurd rfl h
  | release | bind | lose => exact absurd rfl h
  | hello | raise => exact absurd rfl h

/-- An update that buries authority is accepted and breaks the law. -/
theorem buries_step (hindexed : Indexed c.graph) (hgrounded : Grounded c.graph.parent)
    (hvacant : Vacant c) {event : Event} (hburies : c.BuriesAuthority event) :
    ∃ command c', event = .apply command ∧ Step c command c' ∧ ¬Vacant c' := by
  obtain ⟨command, rfl, haccepts, retired, id, lease, claim, hretired, hlease, hoccupies, hclaim,
    hattached⟩ := hburies
  obtain ⟨c', hstep⟩ := accepts_iff.mp haccepts
  refine ⟨command, c', rfl, hstep, fun hafter => ?_⟩
  have hmem := (mem_ancestors_step hstep hindexed hgrounded).mpr hattached
  by_cases hbrought : broughtEdges command = []
  · have hsame : c.Attached command =
        fun above below => c.graph.edgesAt ⟨above, below, .contains⟩ ≠ [] := by
      funext above below
      simp [Attached, hbrought]
    rw [hsame, ← mem_ancestors_iff hindexed hgrounded] at hattached
    exact (hvacant retired id lease claim hretired hlease hoccupies hclaim).2 hattached
  · obtain ⟨hleases, hbindings, hstates⟩ := brought_frame hstep hbrought
    have hsame : c'.occupies id = c.occupies id := by
      simp only [occupies, openBindings, hleases, hbindings]
    obtain ⟨hnode, hentry⟩ := nodeState_eq_some.mp hretired
    have hstill : c'.nodeState retired = some .retired :=
      nodeState_eq_some.mpr ⟨(facts_step hstep).1.kept retired hnode, by rw [hstates]; exact hentry⟩
    exact (hafter retired id lease claim hstill (by rw [hleases]; exact hlease)
      (by rw [hsame]; exact hoccupies) hclaim).2 hmem

end Step

/-! Runs. -/

theorem statesKnown_run (events : List Event) : StatesKnown (run events) := by
  refine @run_invariant StatesKnown ?_ (fun _ _ _ _ _ h => h)
    (fun _ _ _ hstep h => statesKnown_step h hstep) events
  intro node state hstate
  simp [new] at hstate

theorem vacant_event_iff (events : List Event) (event : Event) (h : Vacant (run events)) :
    Vacant (run (events ++ [event])) ↔ ¬(run events).BuriesAuthority event := by
  refine (taken_run events event).keeps_iff (fun _ _ _ _ _ h => h) h ?_
    (buries_step (indexed_run events) (grounded_run events) h)
  rintro command next rfl hstep hspared
  exact vacant_step (wellFormed_run events) (statesKnown_run events) (indexed_run events)
    (grounded_run events) h hstep hspared

/-- In every state of a run the retired nodes carry no authority, exactly when no
update of the run leads from a retired node down to a claim in use. -/
theorem retired_carries_nothing_iff (events : List Event) :
    (∀ reached, reached <+: events → ∀ node, (run reached).nodeState node = some .retired →
      (∀ (id : LeaseId) (lease : Lease), (run reached).leases[id]? = some lease →
        (run reached).occupies id → ∀ claim ∈ lease.allocation.claims,
          claim.node ≠ node ∧ node ∉ (run reached).graph.ancestors claim.node) ∧
      ∀ (id : BindingId) (binding : Binding), (run reached).bindings[id]? = some binding →
        binding.state.isClosed = false →
        binding.node ≠ node ∧ node ∉ (run reached).graph.ancestors binding.node) ↔
      Runs.Along take (fun c event => ¬c.BuriesAuthority event) new events := by
  have hstart : Vacant new := by
    intro retired id lease claim _ hlease
    simp [new] at hlease
  have hall : (∀ reached, reached <+: events → Vacant (run reached)) ↔
      Runs.Along take (fun c event => ¬c.BuriesAuthority event) new events :=
    Runs.forall_prefix_iff_along hstart vacant_event_iff events
  rw [← hall]
  refine forall₂_congr fun reached _ => ⟨fun h => ?_, fun h node hretired => ⟨?_, ?_⟩⟩
  · intro node id lease claim hretired hlease hoccupies hclaim
    exact (h node hretired).1 id lease hlease hoccupies claim hclaim
  · intro id lease hlease hoccupies claim hclaim
    exact h node id lease claim hretired hlease hoccupies hclaim
  · intro id binding hbinding hopen
    obtain ⟨lease, hlease, hoccupies, claim, hclaim, hnode⟩ :=
      open_binding_claim (wellFormed_run reached) hbinding hopen
    rw [← hnode]
    exact h node _ lease claim hretired hlease hoccupies hclaim

/-- An empty rack is retired, and then the machine of the running lease is put
into it. -/
def Sample.buried : List Event := Sample.running .exclusive ++ [
  .apply (.applyResourceFacts [⟨3, .rack, ∅, ∅⟩] [] []),
  .apply (.setNodeState 3 .retired),
  .apply (.applyResourceFacts [] [⟨3, 1, .contains, ∅⟩] [])]

theorem retired_rack_holds_running_lease :
    ¬∀ (events : List Event) (node : NodeId), (run events).nodeState node = some .retired →
      ∀ (id : LeaseId) (lease : Lease), (run events).leases[id]? = some lease →
        (run events).occupies id → ∀ claim ∈ lease.allocation.claims,
          claim.node ≠ node ∧ node ∉ (run events).graph.ancestors claim.node := by
  intro h
  have hlease : (run Sample.buried).leases[(1 : LeaseId)]?.map (fun lease =>
      lease.allocation.claims) = some [⟨2, Sample.units 2⟩] := by
    decide +kernel
  obtain ⟨lease, hholder, hclaims⟩ := Option.map_eq_some_iff.mp hlease
  have hfree := h Sample.buried 3 (by decide +kernel) 1 lease hholder (by decide +kernel)
    ⟨2, Sample.units 2⟩ (by simp [hclaims])
  exact hfree.2 (by decide +kernel)

end Cluster
end Archon.Kernel
