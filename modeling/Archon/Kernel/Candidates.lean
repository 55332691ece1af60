import Archon.Kernel.Placement
import Archon.Kernel.Retired

/-! What placement offers. The graph files each node under its own id and under
its class, so in every reachable cluster the candidates of a need are the nodes
of its class that have a contract, no block above them, and room. -/
namespace Archon.Kernel
open Fallible

namespace Graph

/-- Each node is filed under its own id and under its class. -/
structure Filed (graph : Graph) : Prop where
  key : ∀ (id : NodeId) (node : Node), graph.nodes[id]? = some node → node.id = id
  byClass : ∀ (kind : ResourceClass) (id : NodeId),
    id ∈ graph.nodesOfClass kind ↔ graph.hasKind id kind = true

theorem Filed.new : Filed new where
  key := by simp [Graph.new]
  byClass := by simp [Graph.new, nodesOfClass, hasKind, node]

theorem stageNodes_key {nodes : List Node} {before after : OrdMap NodeId Node}
    (h : nodes.foldlM stageNode before = .ok after)
    (hbefore : ∀ (id : NodeId) (node : Node), before[id]? = some node → node.id = id) :
    ∀ (id : NodeId) (node : Node), after[id]? = some node → node.id = id := by
  refine @foldlM_invariant _ _ _ _ (fun staged : OrdMap NodeId Node =>
    ∀ (id : NodeId) (node : Node), staged[id]? = some node → node.id = id) ?_ _ _ _ h hbefore
  intro staged node next hnext hstaged id found hfound
  simp only [stageNode, check_bind_ok, check_pure_ok] at hnext
  obtain ⟨_, -, rfl⟩ := hnext
  rw [OrdMap.get_insert] at hfound
  split at hfound
  · rename_i heq
    cases hfound
    exact heq
  · exact hstaged id found hfound

theorem applyFactValues_filed {graph staged : Graph} {nodes : List Node} {edges : List Edge}
    (h : graph.applyFactValues nodes edges = .ok staged) (hfiled : Filed graph) : Filed staged := by
  simp only [applyFactValues, check_bind_ok, check_pure_ok] at h
  obtain ⟨stagedNodes, hnodes, stagedEdges, -, _, -, _, -, rfl⟩ := h
  have hkey := stageNodes_key hnodes hfiled.key
  refine ⟨hkey, fun kind id => ?_⟩
  simp only [rebuild, nodesOfClass, hasKind, node, OrdMap.getD_map_sortAsc, mem_sortAsc,
    OrdMap.mem_foldl_upsert, OrdMap.mem_vals, Option.any_eq_true, decide_eq_true_eq]
  constructor
  · rintro (hnone | ⟨node, ⟨at', hnode⟩, hkind, rfl⟩)
    · simp at hnone
    · rw [hkey at' node hnode]
      exact ⟨node, hnode, hkind⟩
  · rintro ⟨node, hnode, hkind⟩
    exact .inr ⟨node, ⟨id, hnode⟩, hkind, hkey id node hnode⟩

theorem Filed.frame {graph other : Graph} (h : Filed graph) (hnodes : other.nodes = graph.nodes)
    (hclass : other.byClass = graph.byClass) : Filed other where
  key := by
    rw [hnodes]
    exact h.key
  byClass := by
    simp only [nodesOfClass, hasKind, node, hnodes, hclass]
    exact h.byClass

theorem apply_filed {graph staged : Graph} {nodes : List Node} {edges : List Edge}
    (h : graph.apply nodes edges = .ok staged) (hfiled : Filed graph) : Filed staged := by
  simp only [Graph.apply, check_bind_ok, check_pure_ok] at h
  obtain ⟨_, -, applied, happlied, rfl⟩ := h
  exact (applyFactValues_filed happlied hfiled).frame rfl rfl

theorem applyBatch_filed {staging staged : Staging} {batch : ProviderFactBatch}
    (h : applyBatch staging batch = .ok staged) (hfiled : Filed staging.graph) :
    Filed staged.graph := by
  simp only [applyBatch, check_bind_ok, check_pure_ok] at h
  obtain ⟨_, -, _, -, applied, happlied, rfl⟩ := h
  exact (applyFactValues_filed happlied hfiled).frame rfl rfl

end Graph

namespace Cluster
open Archon.Kernel.Graph Select

section Step
variable {c c' : Cluster} {command : Command}

theorem Staged.filed {graph staged : Graph} (h : Staged graph command staged) (hfiled : Filed graph) :
    Filed staged := by
  cases h with
  | legacy hlegacy => exact apply_filed hlegacy hfiled
  | resource hfacts =>
    simp only [Graph.applyResourceFacts, check_bind_ok, check_pure_ok] at hfacts
    obtain ⟨_, -, _, hwithdrawn, applied, happlied, added, hadded, _, -, rfl⟩ := hfacts
    obtain ⟨_, rfl⟩ := setClaimBindings_frame hwithdrawn
    obtain ⟨_, rfl⟩ := setClaimBindings_frame hadded
    exact (apply_filed happlied (hfiled.frame rfl rfl)).frame rfl rfl
  | provider hfacts =>
    simp only [Graph.applyProviderFacts, check_bind_ok, check_pure_ok] at hfacts
    obtain ⟨_, -, _, hwithdrawn, staging, hbatches, added, hadded, _, -, rfl⟩ := hfacts
    obtain ⟨_, rfl⟩ := setClaimBindings_frame hwithdrawn
    obtain ⟨_, rfl⟩ := setClaimBindings_frame hadded
    have hstaged := @foldlM_invariant _ _ _ _ (fun staging => Filed staging.graph)
      (fun _ _ _ hbatch hbefore => applyBatch_filed hbatch hbefore) _ _ _ hbatches
      (hfiled.frame rfl rfl)
    exact hstaged.frame rfl rfl

theorem Annotated.filed {staged : Graph} (h : Annotated c command staged) (hfiled : Filed c.graph) :
    Filed staged := by
  cases h with
  | adopt _ hadopted =>
    simp only [Graph.adoptFactWriters, check_bind_ok, check_pure_ok] at hadopted
    obtain ⟨_, -, rfl⟩ := hadopted
    exact hfiled.frame rfl rfl
  | observe hobserved =>
    unfold Graph.setObservation at hobserved
    split at hobserved
    · cases hobserved
      exact hfiled.frame rfl rfl
    · cases hobserved

theorem filed_step (h : Filed c.graph) (hstep : Step c command c') : Filed c'.graph := by
  cases hstep with
  | install _ hstaged => exact hstaged.filed h
  | annotate hannotated => exact hannotated.filed h
  | retry | enter | advance | release | finish | bind | rebind | lose | hello | restate | raise =>
    exact h

end Step

theorem filed_run (events : List Event) : Filed (run events).graph :=
  @run_invariant (fun c => Filed c.graph) Filed.new (fun _ _ _ _ _ h => h)
    (fun _ _ _ hstep h => filed_step h hstep) events

/-! Blocks. -/

section Blocks
variable {c : Cluster}

theorem mem_placementBlocked (hfiled : Filed c.graph) (hknown : StatesKnown c) {id : NodeId} :
    id ∈ c.placementBlocked ↔ c.nodeStates[id]?.any fun state => !state.isSchedulable := by
  simp only [placementBlocked, List.mem_map, List.mem_filter, OrdMap.mem_vals, Bool.not_eq_true',
    Option.any_eq_true]
  constructor
  · rintro ⟨node, ⟨⟨at', hnode⟩, hstate⟩, rfl⟩
    rw [hfiled.key at' node hnode] at hstate ⊢
    rw [nodeState_eq_some.mpr ⟨by simp [hnode], rfl⟩, Option.any_some] at hstate
    cases hentry : c.nodeStates[at']? with
    | none => simp [hentry, NodeState.isSchedulable] at hstate
    | some state => exact ⟨state, rfl, by simpa [hentry] using hstate⟩
  · rintro ⟨state, hentry, hblocked⟩
    obtain ⟨node, hnode⟩ := Option.ne_none_iff_exists'.mp (hknown id state hentry)
    have hkey := hfiled.key id node hnode
    refine ⟨node, ⟨⟨id, hnode⟩, ?_⟩, hkey⟩
    rw [hkey, nodeState_eq_some.mpr ⟨by simp [hnode], rfl⟩]
    simpa [hentry] using hblocked

/-- Placement avoids the nodes the cluster refuses. -/
theorem isBlocked_eq (hfiled : Filed c.graph) (hknown : StatesKnown c) (node : NodeId) :
    isBlocked c.graph c.placementBlocked node = c.nodeQuarantined node := by
  have hmem : ∀ id : NodeId, decide (id ∈ c.placementBlocked) =
      c.nodeStates[id]?.any fun state => !state.isSchedulable := by
    intro id
    rw [Bool.eq_iff_iff, decide_eq_true_eq, mem_placementBlocked hfiled hknown]
  simp only [isBlocked, nodeQuarantined, hmem]

end Blocks

/-! Candidates. -/

section Candidates
variable {graph : Graph} {occupancy : Occupancy} {need : Need} {quarantine : List NodeId}

theorem keepCandidates_ok {offers : NodeId → Except Error Bool} {ids found : List NodeId}
    (h : keepCandidates offers ids = .ok found) (node : NodeId) :
    node ∈ found ↔ node ∈ ids ∧ offers node = .ok true := by
  induction ids generalizing found with
  | nil =>
    cases h
    simp
  | cons id rest ih =>
    simp only [keepCandidates, check_bind_ok, check_pure_ok] at h
    obtain ⟨keep, hkeep, kept, hkept, rfl⟩ := h
    have hrest := ih hkept
    by_cases hid : node = id
    · subst hid
      cases keep <;> simp_all
    · cases keep <;> simp_all

theorem offers_ok {node : NodeId} :
    offers graph occupancy need quarantine node = .ok true ↔
      ∃ found required, graph.node node = some found ∧
        graph.claimBindingForQuantity node (needUnit need) = .ok required ∧
        isBlocked graph quarantine found.id = false ∧
        (∀ filter ∈ need.filters, found.attrs[filter.key]? = some filter.value) ∧
        occupancy.canCover graph ⟨node, needUnit need⟩ = .ok true := by
  simp only [offers, check_bind_ok, okOr_ok]
  cases hrequired : graph.claimBindingForQuantity node (needUnit need) with
  | error e => simp
  | ok required =>
    simp only [check_ite_ok, check_pure_ok, Bool.false_eq_true, and_false, false_or,
      Except.ok.injEq, exists_eq_left', exists_and_left]
    constructor
    · rintro ⟨found, hfound, hblocked, hfilters, hcover⟩
      exact ⟨found, hfound, by simpa using hblocked, by simpa using hfilters, hcover⟩
    · rintro ⟨found, hfound, hblocked, hfilters, hcover⟩
      exact ⟨found, hfound, by simpa using hblocked, by simpa using hfilters, hcover⟩

theorem mem_candidates {found : List NodeId}
    (h : candidates graph occupancy need quarantine = .ok found) (node : NodeId) :
    node ∈ found ↔ node ∈ graph.nodesOfClass need.kind ∧
      offers graph occupancy need quarantine node = .ok true := by
  simp only [candidates, check_bind_ok] at h
  obtain ⟨_, -, h⟩ := h
  exact keepCandidates_ok h node

end Candidates
end Cluster
end Archon.Kernel
