import Archon.Kernel.Candidates

/-! The shape of the resource graph. Whatever updates it was offered, its edges
join known nodes, containment is a forest, the indexes say what nodes and edges
say, and the loops over containers and contained nodes end. -/
namespace Archon.Kernel
open Fallible

namespace Graph

/-- `above` directly contains `below`. -/
def Contains (self : Graph) (above below : NodeId) : Prop :=
  ∃ edge ∈ self.edges, edge.key = ⟨above, below, .contains⟩

/-- Every contract is on a known node and on a dimension it has capacity in. -/
def Contracted (nodes : OrdMap NodeId Node)
    (bindings : OrdMap NodeId (OrdMap CapacityDimension ClaimBinding)) : Prop :=
  ∀ (id : NodeId) (dimensions : OrdMap CapacityDimension ClaimBinding),
    bindings[id]? = some dimensions →
    ∃ node, nodes[id]? = some node ∧ ∀ dimension ∈ dimensions, 0 < quantityGet node.capacity dimension

/-- Nodes and edges of a graph, and the indexes over them. -/
structure Shaped (graph : Graph) : Prop where
  endpoints : ∀ edge ∈ graph.edges, edge.fromNode ∈ graph.nodes ∧ edge.toNode ∈ graph.nodes
  distinct : (graph.edges.map Edge.key).Nodup
  oneContainer : ∀ a b below, graph.Contains a below → graph.Contains b below → a = b
  acyclic : ∀ id, ¬Relation.TransGen graph.Contains id id
  parent : ∀ above below : NodeId, graph.parent[below]? = some above ↔ graph.Contains above below
  children : ∀ above, (graph.childrenOf above).Nodup ∧
    ∀ below, below ∈ graph.childrenOf above ↔ graph.Contains above below
  byClass : ∀ kind, (graph.nodesOfClass kind).Nodup ∧
    ∀ id, id ∈ graph.nodesOfClass kind ↔ graph.hasKind id kind = true

/-! One update. -/

theorem stageEdge_known {nodes : OrdMap NodeId Node} {before after : List Edge} {edge : Edge}
    (h : stageEdge nodes before edge = .ok after)
    (hknown : ∀ edge ∈ before, edge.fromNode ∈ nodes ∧ edge.toNode ∈ nodes) :
    ∀ edge ∈ after, edge.fromNode ∈ nodes ∧ edge.toNode ∈ nodes := by
  simp only [stageEdge, check_bind_ok, refuseIf_ok, not_not] at h
  obtain ⟨_, hfrom, _, hto, h⟩ := h
  split at h
  · cases h
    simp only [List.mem_map, forall_exists_index, and_imp]
    rintro _ existing hexisting rfl
    have := hknown existing hexisting
    split <;> exact this
  · cases h
    intro found hfound
    rcases List.mem_append.mp hfound with hfound | hfound
    · exact hknown found hfound
    · rw [List.mem_singleton.mp hfound]
      exact ⟨hfrom, hto⟩

/-- An edge that is known already keeps its place, so no key appears twice. -/
theorem stageEdge_distinct {nodes : OrdMap NodeId Node} {before after : List Edge} {edge : Edge}
    (h : stageEdge nodes before edge = .ok after) (hdistinct : (before.map Edge.key).Nodup) :
    (after.map Edge.key).Nodup := by
  simp only [stageEdge, check_bind_ok, refuseIf_ok, not_not] at h
  obtain ⟨_, -, _, -, h⟩ := h
  split at h
  · cases h
    have hsame : Edge.key ∘ (fun existing : Edge =>
        if existing.key = edge.key then { existing with attrs := edge.attrs } else existing) =
        Edge.key := by
      funext existing
      simp only [Function.comp]
      split <;> rfl
    rw [List.map_map, hsame]
    exact hdistinct
  · rename_i hnew
    cases h
    rw [List.map_append, List.map_singleton, List.nodup_append_comm, List.singleton_append,
      List.nodup_cons]
    refine ⟨fun hmem => hnew ?_, hdistinct⟩
    obtain ⟨existing, hexisting, hkey⟩ := List.mem_map.mp hmem
    exact List.any_eq_true.mpr ⟨existing, hexisting, by simpa using hkey⟩

theorem validateClaimBindings_ok {nodes : OrdMap NodeId Node}
    {bindings : OrdMap NodeId (OrdMap CapacityDimension ClaimBinding)}
    (h : validateClaimBindings nodes bindings = .ok ()) : Contracted nodes bindings := by
  intro id dimensions hdimensions
  simp only [validateClaimBindings, List.forM_eq_forM, forM_ok, check_bind_ok, okOr_ok,
    refuseIf_ok] at h
  obtain ⟨node, hnode, hcapacity⟩ :=
    h (id, dimensions) (Std.ExtTreeMap.mem_toList_iff_getElem?_eq_some.mpr hdimensions)
  refine ⟨node, hnode, fun dimension hdimension => ?_⟩
  exact UInt64.pos_iff_ne_zero.mpr (hcapacity dimension (Std.ExtTreeMap.mem_keys.mpr hdimension))

theorem nodup_vals_ids {nodes : OrdMap NodeId Node}
    (hkey : ∀ (id : NodeId) (node : Node), nodes[id]? = some node → node.id = id) :
    ((OrdMap.vals nodes).map Node.id).Nodup := by
  have hids : (OrdMap.vals nodes).map Node.id = nodes.keys := by
    rw [OrdMap.vals, List.map_map, ← Std.ExtTreeMap.map_fst_toList_eq_keys]
    apply List.map_congr_left
    intro entry hentry
    exact hkey entry.1 entry.2 (Std.ExtTreeMap.mem_toList_iff_getElem?_eq_some.mp hentry)
  rw [hids]
  exact Std.ExtTreeMap.nodup_keys

theorem children_rebuild (graph : Graph) (above : NodeId) :
    graph.rebuild.childrenOf above = sortAsc ((graph.edges.filter fun edge =>
      edge.fromNode = above ∧ edge.kind = .contains).map Edge.toNode) := by
  have hfiled := OrdMap.get_foldl_upsert Edge.fromNode Edge.toNode
    (graph.edges.filter fun edge => edge.kind = .contains) ∅ above
  rw [Std.ExtTreeMap.getElem?_empty, Option.getD_none, List.nil_append, List.filter_filter] at hfiled
  simp only [childrenOf, rebuild, OrdMap.getD_map_sortAsc, hfiled, Bool.decide_and]

theorem byClass_rebuild (graph : Graph) (kind : ResourceClass) :
    graph.rebuild.nodesOfClass kind = sortAsc (((OrdMap.vals graph.nodes).filter fun node =>
      node.kind = kind).map Node.id) := by
  have hfiled := OrdMap.get_foldl_upsert Node.kind Node.id (OrdMap.vals graph.nodes) ∅ kind
  rw [Std.ExtTreeMap.getElem?_empty, Option.getD_none, List.nil_append] at hfiled
  simp only [nodesOfClass, rebuild, OrdMap.getD_map_sortAsc, hfiled]

/-- A containment edge is stored once, so no node is listed twice among children. -/
theorem nodup_children {edges : List Edge} (hdistinct : (edges.map Edge.key).Nodup) (above : NodeId) :
    ((edges.filter fun edge => edge.fromNode = above ∧ edge.kind = .contains).map Edge.toNode).Nodup := by
  have hfiltered : ((edges.filter fun edge =>
      edge.fromNode = above ∧ edge.kind = .contains).map Edge.key).Nodup :=
    hdistinct.sublist (List.filter_sublist.map Edge.key)
  have hkeys : (edges.filter fun edge => edge.fromNode = above ∧ edge.kind = .contains).map Edge.key =
      ((edges.filter fun edge => edge.fromNode = above ∧ edge.kind = .contains).map Edge.toNode).map
        fun below => ⟨above, below, .contains⟩ := by
    rw [List.map_map]
    apply List.map_congr_left
    intro edge hedge
    simp only [List.mem_filter, decide_eq_true_eq] at hedge
    simp [Edge.key, hedge.2]
  rw [hkeys] at hfiltered
  exact hfiltered.of_map _

/-- Applied fact values are shaped, whatever the indexes were before. -/
theorem applyFactValues_shaped {graph staged : Graph} {nodes : List Node} {edges : List Edge}
    (h : graph.applyFactValues nodes edges = .ok staged) (hfiled : Filed graph)
    (hshaped : Shaped graph) : Shaped staged := by
  have hindexed := (applyFactValues_revised h).indexed
  have hgrounded := applyFactValues_grounded h
  have hclasses := (applyFactValues_filed h hfiled).byClass
  have hkey := (applyFactValues_filed h hfiled).key
  simp only [applyFactValues, check_bind_ok, check_pure_ok] at h
  obtain ⟨stagedNodes, hnodes, stagedEdges, hedges, _, -, _, -, rfl⟩ := h
  have hparent : ∀ above below : NodeId, _ ↔ Contains _ above below := fun above below =>
    (hindexed above below).trans edgesAt_ne_nil
  have hstill : ∀ edge ∈ graph.edges, edge.fromNode ∈ stagedNodes ∧ edge.toNode ∈ stagedNodes := by
    intro edge hedge
    have hknown := hshaped.endpoints edge hedge
    simp only [← Std.ExtTreeMap.isSome_getElem?_iff_mem, Option.isSome_iff_ne_none] at hknown ⊢
    exact ⟨(stageNodes_ok hnodes).2 _ hknown.1, (stageNodes_ok hnodes).2 _ hknown.2⟩
  have hdistinct : (stagedEdges.map Edge.key).Nodup :=
    @foldlM_invariant _ _ _ _ (fun staged : List Edge => (staged.map Edge.key).Nodup)
      (fun _ _ _ => stageEdge_distinct) _ _ _ hedges hshaped.distinct
  have hcontains : Contains _ = fun above below : NodeId => _ = some above :=
    funext₂ fun above below => propext (hparent above below).symm
  constructor
  case endpoints =>
    exact @foldlM_invariant _ _ _ _
      (fun staged : List Edge => ∀ edge ∈ staged, edge.fromNode ∈ stagedNodes ∧ edge.toNode ∈ stagedNodes)
      (fun _ _ _ => stageEdge_known) _ _ _ hedges hstill
  case distinct => exact hdistinct
  case oneContainer =>
    intro a b below ha hb
    rw [← hparent] at ha hb
    rw [ha] at hb
    exact Option.some.inj hb
  case acyclic =>
    rw [hcontains]
    exact Forest.not_above_self hgrounded
  case parent => exact hparent
  case children =>
    intro above
    rw [children_rebuild, nodup_sortAsc]
    refine ⟨nodup_children hdistinct above, fun below => ?_⟩
    simp only [mem_sortAsc, List.mem_map, List.mem_filter, decide_eq_true_eq, Contains, Edge.key,
      FactEdge.mk.injEq, rebuild]
    tauto
  case byClass =>
    intro kind
    refine ⟨?_, hclasses kind⟩
    rw [byClass_rebuild, nodup_sortAsc]
    exact (nodup_vals_ids hkey).sublist (List.filter_sublist.map Node.id)

theorem Shaped.frame {graph other : Graph} (h : Shaped graph) (hnodes : other.nodes = graph.nodes)
    (hedges : other.edges = graph.edges) (hparent : other.parent = graph.parent)
    (hchildren : other.children = graph.children) (hclass : other.byClass = graph.byClass) :
    Shaped other := by
  have hcontains : other.Contains = graph.Contains := by
    funext above below
    rw [Contains, Contains, hedges]
  constructor
  · rw [hedges, hnodes]
    exact h.endpoints
  · rw [hedges]
    exact h.distinct
  · rw [hcontains]
    exact h.oneContainer
  · rw [hcontains]
    exact h.acyclic
  · rw [hparent, hcontains]
    exact h.parent
  · simp only [childrenOf, hchildren, hcontains]
    exact h.children
  · simp only [nodesOfClass, hasKind, node, hclass, hnodes]
    exact h.byClass

/-- What every update keeps: the shape, each node under its own id, and the
contracts. -/
structure Coherent (graph : Graph) : Prop where
  filed : Filed graph
  shaped : Shaped graph
  grounded : Grounded graph.parent
  contracted : Contracted graph.nodes graph.claimBindings

theorem Coherent.new : Coherent new where
  filed := .new
  shaped := by
    have hnone : Graph.new.Contains = fun _ _ => False := by
      funext above below
      simp [Contains, Graph.new]
    constructor
    case endpoints => simp [Graph.new]
    case distinct => simp [Graph.new]
    case oneContainer => simp [hnone]
    case acyclic =>
      intro id hself
      rw [hnone] at hself
      cases hself <;> assumption
    case parent =>
      rw [hnone]
      simp [Graph.new]
    case children =>
      rw [hnone]
      simp [Graph.new, childrenOf]
    case byClass => simp [Graph.new, nodesOfClass, hasKind, node]
  grounded := fun _ => rfl
  contracted := by simp [Contracted, Graph.new]

section Updates
variable {graph staged : Graph}

theorem apply_coherent {nodes : List Node} {edges : List Edge}
    (h : graph.apply nodes edges = .ok staged) (hfiled : Filed graph) (hshaped : Shaped graph) :
    Coherent staged := by
  simp only [apply, check_bind_ok, check_pure_ok] at h
  obtain ⟨_, -, applied, happlied, rfl⟩ := h
  have hafter := applyFactValues_shaped happlied hfiled hshaped
  have hkept := applyFactValues_filed happlied hfiled
  have hgrounded := applyFactValues_grounded happlied
  simp only [applyFactValues, check_bind_ok, check_pure_ok] at happlied
  obtain ⟨_, -, _, -, _, -, _, hclaims, rfl⟩ := happlied
  exact ⟨hkept.frame rfl rfl, hafter.frame rfl rfl rfl rfl rfl, hgrounded,
    validateClaimBindings_ok hclaims⟩

theorem applyResourceFacts_coherent {nodes : List Node} {edges : List Edge}
    {updates : List ClaimBindingUpdate} (h : graph.applyResourceFacts nodes edges updates = .ok staged)
    (hcoherent : Coherent graph) : Coherent staged := by
  simp only [applyResourceFacts, check_bind_ok, check_pure_ok] at h
  obtain ⟨_, -, _, hwithdrawn, applied, happlied, added, hadded, _, hclaims, rfl⟩ := h
  obtain ⟨_, rfl⟩ := setClaimBindings_frame hwithdrawn
  obtain ⟨_, rfl⟩ := setClaimBindings_frame hadded
  have hafter := apply_coherent happlied (hcoherent.filed.frame rfl rfl)
    (hcoherent.shaped.frame rfl rfl rfl rfl rfl)
  exact ⟨hafter.filed.frame rfl rfl, hafter.shaped.frame rfl rfl rfl rfl rfl, hafter.grounded,
    validateClaimBindings_ok hclaims⟩

theorem applyBatch_shaped {staging next : Staging} {batch : ProviderFactBatch}
    (h : applyBatch staging batch = .ok next) (hfiled : Filed staging.graph)
    (hshaped : Shaped staging.graph) : Shaped next.graph := by
  simp only [applyBatch, check_bind_ok, check_pure_ok] at h
  obtain ⟨_, -, _, -, applied, happlied, rfl⟩ := h
  exact (applyFactValues_shaped happlied hfiled hshaped).frame rfl rfl rfl rfl rfl

theorem applyProviderFacts_coherent {batches : List ProviderFactBatch}
    {updates : List ClaimBindingUpdate} (h : graph.applyProviderFacts batches updates = .ok staged)
    (hcoherent : Coherent graph) : Coherent staged := by
  simp only [applyProviderFacts, check_bind_ok, check_pure_ok] at h
  obtain ⟨_, -, _, hwithdrawn, staging, hbatches, added, hadded, _, hclaims, rfl⟩ := h
  obtain ⟨_, rfl⟩ := setClaimBindings_frame hwithdrawn
  obtain ⟨_, rfl⟩ := setClaimBindings_frame hadded
  have hafter := @foldlM_invariant _ _ _ _
    (fun staging => Filed staging.graph ∧ Shaped staging.graph ∧ Grounded staging.graph.parent)
    (fun _ _ _ hbatch hbefore => ⟨applyBatch_filed hbatch hbefore.1,
      applyBatch_shaped hbatch hbefore.1 hbefore.2.1, applyBatch_grounded hbatch⟩) _ _ _ hbatches
    ⟨hcoherent.filed.frame rfl rfl, hcoherent.shaped.frame rfl rfl rfl rfl rfl, hcoherent.grounded⟩
  exact ⟨hafter.1.frame rfl rfl, hafter.2.1.frame rfl rfl rfl rfl rfl, hafter.2.2,
    validateClaimBindings_ok hclaims⟩

theorem adoptFactWriters_coherent {assignments : List FactWriterAssignment}
    (h : graph.adoptFactWriters assignments = .ok staged) (hcoherent : Coherent graph) :
    Coherent staged := by
  simp only [adoptFactWriters, check_bind_ok, check_pure_ok] at h
  obtain ⟨_, -, rfl⟩ := h
  exact ⟨hcoherent.filed.frame rfl rfl, hcoherent.shaped.frame rfl rfl rfl rfl rfl,
    hcoherent.grounded, hcoherent.contracted⟩

theorem setObservation_coherent {id : NodeId} {key value : String}
    (h : graph.setObservation id key value = some staged) (hcoherent : Coherent graph) :
    Coherent staged := by
  unfold setObservation at h
  split at h
  · cases h
    exact ⟨hcoherent.filed.frame rfl rfl, hcoherent.shaped.frame rfl rfl rfl rfl rfl,
      hcoherent.grounded, hcoherent.contracted⟩
  · cases h

end Updates

/-! Histories. -/

/-- An update offered to the graph. -/
inductive Update where
  | apply (nodes : List Node) (edges : List Edge)
  | applyResourceFacts (nodes : List Node) (edges : List Edge) (updates : List ClaimBindingUpdate)
  | applyProviderFacts (batches : List ProviderFactBatch) (updates : List ClaimBindingUpdate)
  | adoptFactWriters (assignments : List FactWriterAssignment)
  | setObservation (id : NodeId) (key value : String)

def accept (self : Graph) : Update → Option Graph
  | .apply nodes edges => (self.apply nodes edges).toOption
  | .applyResourceFacts nodes edges updates => (self.applyResourceFacts nodes edges updates).toOption
  | .applyProviderFacts batches updates => (self.applyProviderFacts batches updates).toOption
  | .adoptFactWriters assignments => (self.adoptFactWriters assignments).toOption
  | .setObservation id key value => self.setObservation id key value

/-- A refused update leaves the graph as it was. -/
def offer (self : Graph) (update : Update) : Graph := (self.accept update).getD self

theorem toOption_eq_some {result : Except Error Graph} {graph : Graph} :
    result.toOption = some graph ↔ result = .ok graph := by
  cases result <;> simp [Except.toOption]

theorem accept_coherent {graph staged : Graph} {update : Update} (h : graph.accept update = some staged)
    (hcoherent : Coherent graph) : Coherent staged := by
  cases update with
  | apply nodes edges =>
    exact apply_coherent (toOption_eq_some.mp h) hcoherent.filed hcoherent.shaped
  | applyResourceFacts nodes edges updates =>
    exact applyResourceFacts_coherent (toOption_eq_some.mp h) hcoherent
  | applyProviderFacts batches updates =>
    exact applyProviderFacts_coherent (toOption_eq_some.mp h) hcoherent
  | adoptFactWriters assignments => exact adoptFactWriters_coherent (toOption_eq_some.mp h) hcoherent
  | setObservation id key value => exact setObservation_coherent h hcoherent

theorem offer_coherent {graph : Graph} (update : Update) (hcoherent : Coherent graph) :
    Coherent (graph.offer update) := by
  unfold offer
  cases haccept : graph.accept update with
  | none => exact hcoherent
  | some staged => exact accept_coherent haccept hcoherent

theorem coherent_offered (updates : List Update) : Coherent (Runs.run offer new updates) :=
  Runs.invariant Coherent.new (fun _ update hcoherent => by
    rw [Runs.run_concat]
    exact offer_coherent update hcoherent) updates

/-! Walks. -/

/-- The loop of `ancestors`, to at most `rounds` rounds of it. -/
def ancestorsLoop (self : Graph) (rounds : Nat) (id : NodeId) : Option (List NodeId) :=
  Forest.climbing self.parentOf rounds (self.parentOf id) []

/-- The loop of `descendants`; its stack grows and shrinks at the head. -/
def descendantsLoop (self : Graph) (rounds : Nat) (id : NodeId) : Option (List NodeId) :=
  Forest.draining self.childrenOf rounds (self.childrenOf id).reverse []

section Walks
variable {graph : Graph}

theorem Shaped.below_iff (h : Shaped graph) (above below : NodeId) :
    Forest.Below graph.childrenOf above below ↔ Relation.TransGen graph.Contains above below := by
  have hsame : (fun parent child => child ∈ graph.childrenOf parent) = graph.Contains :=
    funext₂ fun above below => propext ((h.children above).2 below)
  rw [Forest.Below, hsame]

/-- Contained nodes rank by the number of their containers. -/
theorem Coherent.ranked (h : Coherent graph) :
    Forest.Ranked graph.childrenOf (fun id => (graph.ancestors id).length) (graph.parent.size + 1) := by
  intro parent child hchild
  rw [(h.shaped.children parent).2, ← h.shaped.parent] at hchild
  have hlength : (graph.ancestors child).length = (graph.ancestors parent).length + 1 :=
    Forest.length_climb h.grounded hchild
  have hbound : (graph.ancestors child).length ≤ graph.parent.size := Forest.length_climb_le _ _ _
  simp only
  omega

theorem Coherent.oneParent (h : Coherent graph) : Forest.OneParent graph.childrenOf := by
  intro a b child ha hb
  rw [(h.shaped.children _).2] at ha hb
  exact h.shaped.oneContainer a b child ha hb

theorem Coherent.mem_ancestors (h : Coherent graph) (above below : NodeId) :
    above ∈ graph.ancestors below ↔ Relation.TransGen graph.Contains above below := by
  have hsame : (fun above below : NodeId => graph.parent[below]? = some above) = graph.Contains :=
    funext₂ fun above below => propext (h.shaped.parent above below)
  rw [← hsame]
  exact Forest.mem_climb_iff h.grounded

theorem Coherent.mem_descendants (h : Coherent graph) (above below : NodeId) :
    below ∈ graph.descendants above ↔ Relation.TransGen graph.Contains above below := by
  rw [← h.shaped.below_iff]
  exact Forest.mem_preorder_iff h.ranked le_rfl

theorem Coherent.ancestorsLoop_ends (h : Coherent graph) {rounds : Nat} {id : NodeId}
    (hrounds : graph.parent.size < rounds) : graph.ancestorsLoop rounds id = some (graph.ancestors id) := by
  have hlength : (graph.ancestors id).length ≤ graph.parent.size := Forest.length_climb_le _ _ _
  exact Forest.climbing_eq h.grounded (hlength.trans_lt hrounds) []

theorem Coherent.descendantsLoop_ends (h : Coherent graph) {rounds : Nat} {id : NodeId}
    (hrounds : (graph.descendants id).length < rounds) :
    graph.descendantsLoop rounds id = some (graph.descendants id) := by
  have hsubtree : graph.descendants id = (graph.childrenOf id).reverse.flatMap
      fun child => child :: graph.descendants child := Forest.preorder_eq h.ranked le_rfl id
  rw [hsubtree] at hrounds ⊢
  exact Forest.draining_eq h.ranked le_rfl hrounds []

end Walks

/-- Whatever updates a graph was offered, accepted or refused, it is well formed:
edges join known nodes under distinct keys, containment is a forest, the indexes
agree with nodes and edges, and contracts have capacity under them. Its walks end
without meeting a node twice, and each undoes the other. -/
theorem offered_wellFormed (updates : List Update) :
    let graph := Runs.run offer new updates
    Shaped graph ∧ Contracted graph.nodes graph.claimBindings ∧
    ∀ x, (∃ enough, ∀ rounds, enough ≤ rounds →
        graph.ancestorsLoop rounds x = some (graph.ancestors x) ∧
        graph.descendantsLoop rounds x = some (graph.descendants x)) ∧
      (graph.ancestors x).Nodup ∧ (graph.descendants x).Nodup ∧
      ∀ y, x ∈ graph.descendants y ↔ y ∈ graph.ancestors x := by
  intro graph
  have h : Coherent graph := coherent_offered updates
  refine ⟨h.shaped, h.contracted, fun x => ⟨?_, Forest.nodup_climb h.grounded x, ?_, fun y => ?_⟩⟩
  · refine ⟨graph.parent.size + (graph.descendants x).length + 1, fun rounds hrounds => ?_⟩
    exact ⟨h.ancestorsLoop_ends (by omega), h.descendantsLoop_ends (by omega)⟩
  · exact Forest.nodup_preorder h.ranked h.oneParent (fun id => (h.shaped.children id).1) le_rfl x
  · rw [h.mem_descendants, h.mem_ancestors]

end Graph
end Archon.Kernel
