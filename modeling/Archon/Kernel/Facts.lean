import Archon.Lib.Owned
import Archon.Kernel.Containment

/-! What an update does to the facts. Nodes and edges are two registers of facts
with writers; every update keeps them, and one equation per staging loop says
which keys it writes. A containment pointer, once set, is never moved. -/
namespace Archon.Kernel
open Fallible

namespace Graph

/-- Nodes and their writers. -/
def nodeFacts (self : Graph) : Owned.Register NodeId (Option Node) FactWriterId where
  value id := self.nodes[id]?
  owner id := self.nodeFactWriters[id]?

/-- The edges stored under a key. -/
def edgesAt (self : Graph) (key : FactEdge) : List Edge :=
  self.edges.filter fun edge => edge.key = key

/-- Edges and their writers. -/
def edgeFacts (self : Graph) : Owned.Register FactEdge (List Edge) FactWriterId where
  value key := self.edgesAt key
  owner key := self.edgeFactWriters[key]?

/-! Staging. -/

theorem stageNodes_ok {nodes : List Node} {before after : OrdMap NodeId Node}
    (h : nodes.foldlM stageNode before = .ok after) :
    (∀ id, id ∉ nodes.map Node.id → after[id]? = before[id]?) ∧
      ∀ id : NodeId, before[id]? ≠ none → after[id]? ≠ none := by
  induction nodes generalizing before with
  | nil =>
    cases h
    exact ⟨fun _ _ => rfl, fun _ hid => hid⟩
  | cons node rest ih =>
    rw [List.foldlM_cons, check_bind_ok] at h
    obtain ⟨staged, hstaged, hrest⟩ := h
    simp only [stageNode, check_bind_ok, refuseIf_ok, check_pure_ok] at hstaged
    obtain ⟨_, -, rfl⟩ := hstaged
    obtain ⟨hother, hkept⟩ := ih hrest
    constructor
    · intro id hid
      simp only [List.map_cons, List.mem_cons, not_or] at hid
      rw [hother id hid.2, OrdMap.get_insert, if_neg (fun heq => hid.1 heq.symm)]
    · intro id hid
      refine hkept id ?_
      rw [OrdMap.get_insert]
      split
      · simp
      · exact hid

theorem filter_map_attrs (edges : List Edge) (edge : Edge) (key : FactEdge) :
    (edges.map fun existing =>
        if existing.key = edge.key then { existing with attrs := edge.attrs } else existing).filter
        (fun existing => existing.key = key) =
      (edges.filter fun existing => existing.key = key).map fun existing =>
        if existing.key = edge.key then { existing with attrs := edge.attrs } else existing := by
  rw [List.filter_map]
  congr 1
  apply List.filter_congr
  intro existing _
  simp only [Function.comp_apply]
  split <;> rfl

theorem stageEdge_ok {nodes : OrdMap NodeId Node} {before after : List Edge} {edge : Edge}
    (h : stageEdge nodes before edge = .ok after) :
    (∀ key, key ≠ edge.key →
      after.filter (fun existing => existing.key = key) =
        before.filter fun existing => existing.key = key) ∧
    (∀ key, after.filter (fun existing => existing.key = key) ≠ [] ↔
      before.filter (fun existing => existing.key = key) ≠ [] ∨ key = edge.key) := by
  simp only [stageEdge, check_bind_ok, refuseIf_ok, check_ite_ok, check_pure_ok] at h
  obtain ⟨_, -, _, -, ⟨hknown, rfl⟩ | ⟨-, rfl⟩⟩ := h
  · constructor
    · intro key hkey
      rw [filter_map_attrs]
      conv_rhs => rw [← List.map_id (before.filter _)]
      apply List.map_congr_left
      intro existing hmem
      have hsame : existing.key = key := by simpa using (List.mem_filter.mp hmem).2
      rw [if_neg (by rw [hsame]; exact hkey), id]
    · intro key
      rw [filter_map_attrs, ne_eq, List.map_eq_nil_iff]
      refine ⟨.inl, fun hkey => hkey.elim (fun h => h) ?_⟩
      rintro rfl
      obtain ⟨existing, hmem, heq⟩ := List.any_eq_true.mp hknown
      exact List.ne_nil_of_mem (List.mem_filter.mpr ⟨hmem, heq⟩)
  · constructor
    · intro key hkey
      rw [List.filter_append, List.filter_cons_of_neg (by simpa using fun heq => hkey heq.symm)]
      simp
    · intro key
      rw [List.filter_append, List.filter_cons]
      simp only [decide_eq_true_eq, List.filter_nil, ne_eq, List.append_eq_nil_iff, not_and_or]
      refine or_congr Iff.rfl ?_
      split <;> simp_all [eq_comm]

theorem stageEdges_ok {nodes : OrdMap NodeId Node} {edges before after : List Edge}
    (h : edges.foldlM (stageEdge nodes) before = .ok after) :
    (∀ key, key ∉ edges.map Edge.key →
      after.filter (fun existing => existing.key = key) =
        before.filter fun existing => existing.key = key) ∧
    (∀ key, after.filter (fun existing => existing.key = key) ≠ [] ↔
      before.filter (fun existing => existing.key = key) ≠ [] ∨ key ∈ edges.map Edge.key) := by
  induction edges generalizing before with
  | nil =>
    cases h
    exact ⟨fun _ _ => rfl, fun _ => by simp⟩
  | cons edge rest ih =>
    rw [List.foldlM_cons, check_bind_ok] at h
    obtain ⟨staged, hstaged, hrest⟩ := h
    obtain ⟨hother, hkeys⟩ := stageEdge_ok hstaged
    obtain ⟨hother', hkeys'⟩ := ih hrest
    constructor
    · intro key hkey
      simp only [List.map_cons, List.mem_cons, not_or] at hkey
      rw [hother' key hkey.2, hother key hkey.1]
    · intro key
      rw [hkeys', hkeys, List.map_cons, List.mem_cons, or_assoc]

/-- What staging fact values does: it writes the nodes and edges it names, keeps
every fact, and rebuilds the containment index. -/
structure Revised (before after : Graph) (nodes : List Node) (edges : List Edge) : Prop where
  node : ∀ id, id ∉ nodes.map Node.id → after.nodes[id]? = before.nodes[id]?
  nodeKept : ∀ id : NodeId, before.nodes[id]? ≠ none → after.nodes[id]? ≠ none
  edge : ∀ key, key ∉ edges.map Edge.key → after.edgesAt key = before.edgesAt key
  edgeKeys : ∀ key, after.edgesAt key ≠ [] ↔
    before.edgesAt key ≠ [] ∨ key ∈ edges.map Edge.key
  nodeWriters : after.nodeFactWriters = before.nodeFactWriters
  edgeWriters : after.edgeFactWriters = before.edgeFactWriters
  parent : after.parent = containers after.edges
  valid : validateContains after.edges = .ok ()

theorem applyFactValues_revised {graph staged : Graph} {nodes : List Node} {edges : List Edge}
    (h : graph.applyFactValues nodes edges = .ok staged) : Revised graph staged nodes edges := by
  simp only [applyFactValues, check_bind_ok, check_pure_ok] at h
  obtain ⟨stagedNodes, hnodes, stagedEdges, hedges, _, hvalid, _, -, rfl⟩ := h
  obtain ⟨hnode, hnodeKept⟩ := stageNodes_ok hnodes
  obtain ⟨hedge, hedgeKeys⟩ := stageEdges_ok hedges
  exact ⟨hnode, hnodeKept, hedge, hedgeKeys, rfl, rfl, rfl, hvalid⟩

theorem Revised.edgeKept {before after : Graph} {nodes : List Node} {edges : List Edge}
    (h : Revised before after nodes edges) (key : FactEdge) (hkey : before.edgesAt key ≠ []) :
    after.edgesAt key ≠ [] :=
  (h.edgeKeys key).mpr (.inl hkey)

/-! Batches with a writer. -/

theorem checkNodeWriters_ok {staged : Graph} {writer : FactWriterId} {nodes : List Node}
    {seen result : List NodeId} (h : nodes.foldlM (checkNodeWriter staged writer) seen = .ok result) :
    ∀ node ∈ nodes, staged.nodeFacts.owner node.id = some writer ∨
      (staged.nodeFacts.owner node.id = none ∧ staged.nodeFacts.value node.id = none) := by
  induction nodes generalizing seen with
  | nil => simp
  | cons node rest ih =>
    rw [List.foldlM_cons, check_bind_ok] at h
    obtain ⟨next, hnext, hrest⟩ := h
    intro found hfound
    rcases List.mem_cons.mp hfound with rfl | hfound
    · simp only [checkNodeWriter, check_bind_ok] at hnext
      obtain ⟨_, -, hnext⟩ := hnext
      simp only [nodeFacts]
      split at hnext
      · rename_i owner howner
        simp only [check_bind_ok, refuseIf_ok, not_not] at hnext
        obtain ⟨_, rfl, -⟩ := hnext
        exact .inl howner
      · rename_i howner
        simp only [check_bind_ok, refuseIf_ok] at hnext
        obtain ⟨_, hunknown, -⟩ := hnext
        exact .inr ⟨howner, by simpa using hunknown⟩
    · exact ih hrest found hfound

theorem checkEdgeWriters_ok {staged : Graph} {writer : FactWriterId} {edges : List Edge}
    {seen result : List FactEdge} (h : edges.foldlM (checkEdgeWriter staged writer) seen = .ok result) :
    ∀ edge ∈ edges, staged.edgeFacts.owner edge.key = some writer ∨
      (staged.edgeFacts.owner edge.key = none ∧ staged.edgeFacts.value edge.key = []) := by
  induction edges generalizing seen with
  | nil => simp
  | cons edge rest ih =>
    rw [List.foldlM_cons, check_bind_ok] at h
    obtain ⟨next, hnext, hrest⟩ := h
    intro found hfound
    rcases List.mem_cons.mp hfound with rfl | hfound
    · simp only [checkEdgeWriter, check_bind_ok] at hnext
      obtain ⟨_, -, hnext⟩ := hnext
      simp only [edgeFacts]
      split at hnext
      · rename_i owner howner
        simp only [check_bind_ok, refuseIf_ok, not_not] at hnext
        obtain ⟨_, rfl, -⟩ := hnext
        exact .inl howner
      · rename_i howner
        simp only [check_bind_ok, refuseIf_ok] at hnext
        obtain ⟨_, hunknown, -⟩ := hnext
        refine .inr ⟨howner, ?_⟩
        rw [edgesAt, List.filter_eq_nil_iff]
        intro existing hmem heq
        exact hunknown (List.any_eq_true.mpr ⟨existing, hmem, heq⟩)
    · exact ih hrest found hfound

theorem applyBatch_tended {staging staged : Staging} {batch : ProviderFactBatch}
    (h : applyBatch staging batch = .ok staged) :
    (Owned.Tended none (fun w id => batch.writer = w ∧ id ∈ batch.nodes.map Node.id)
        staging.graph.nodeFacts staged.graph.nodeFacts ∧
      Owned.Spared none staging.graph.nodeFacts staged.graph.nodeFacts) ∧
    Owned.Tended [] (fun w key => batch.writer = w ∧ key ∈ batch.edges.map Edge.key)
        staging.graph.edgeFacts staged.graph.edgeFacts ∧
      Owned.Spared [] staging.graph.edgeFacts staged.graph.edgeFacts := by
  simp only [applyBatch, check_bind_ok, check_pure_ok] at h
  obtain ⟨_, hnodes, _, hedges, applied, happlied, rfl⟩ := h
  have hrevised := applyFactValues_revised happlied
  constructor
  · refine Owned.tended_of_write hrevised.node hrevised.nodeKept ?_ ?_ ?_
    · intro id hid
      simp only [nodeFacts, OrdMap.get_foldl_insert Node.id, if_pos hid]
    · intro id hid
      simp only [nodeFacts, OrdMap.get_foldl_insert Node.id, if_neg hid, hrevised.nodeWriters]
    · intro id hid
      obtain ⟨node, hnode, rfl⟩ := List.mem_map.mp hid
      exact checkNodeWriters_ok hnodes node hnode
  · refine Owned.tended_of_write hrevised.edge hrevised.edgeKept ?_ ?_ ?_
    · intro key hkey
      simp only [edgeFacts, OrdMap.get_foldl_insert Edge.key, if_pos hkey]
    · intro key hkey
      simp only [edgeFacts, OrdMap.get_foldl_insert Edge.key, if_neg hkey, hrevised.edgeWriters]
    · intro key hkey
      obtain ⟨edge, hedge, rfl⟩ := List.mem_map.mp hkey
      exact checkEdgeWriters_ok hedges edge hedge

/-- A batch on behalf of `writer` names the node, or the edge. -/
def NamesNode (batches : List ProviderFactBatch) (writer : FactWriterId) (id : NodeId) : Prop :=
  ∃ batch ∈ batches, batch.writer = writer ∧ id ∈ batch.nodes.map Node.id

def NamesEdge (batches : List ProviderFactBatch) (writer : FactWriterId) (key : FactEdge) : Prop :=
  ∃ batch ∈ batches, batch.writer = writer ∧ key ∈ batch.edges.map Edge.key

theorem applyBatches_tended {batches : List ProviderFactBatch} {staging staged : Staging}
    (h : batches.foldlM applyBatch staging = .ok staged) :
    (Owned.Tended none (NamesNode batches) staging.graph.nodeFacts staged.graph.nodeFacts ∧
      Owned.Spared none staging.graph.nodeFacts staged.graph.nodeFacts) ∧
    Owned.Tended [] (NamesEdge batches) staging.graph.edgeFacts staged.graph.edgeFacts ∧
      Owned.Spared [] staging.graph.edgeFacts staged.graph.edgeFacts := by
  induction batches generalizing staging with
  | nil =>
    cases h
    exact ⟨⟨.refl, .refl⟩, .refl, .refl⟩
  | cons batch rest ih =>
    rw [List.foldlM_cons, check_bind_ok] at h
    obtain ⟨next, hnext, hrest⟩ := h
    obtain ⟨⟨hnodes, hnodesSpared⟩, hedges, hedgesSpared⟩ := applyBatch_tended hnext
    obtain ⟨⟨hnodes', hnodesSpared'⟩, hedges', hedgesSpared'⟩ := ih hrest
    refine ⟨⟨(hnodes.mono ?_).trans (hnodes'.mono ?_), hnodesSpared.trans hnodesSpared'⟩,
      (hedges.mono ?_).trans (hedges'.mono ?_), hedgesSpared.trans hedgesSpared'⟩
    · exact fun w id hnamed => ⟨batch, List.mem_cons_self, hnamed⟩
    · rintro w id ⟨found, hmem, hnamed⟩
      exact ⟨found, List.mem_cons_of_mem _ hmem, hnamed⟩
    · exact fun w key hnamed => ⟨batch, List.mem_cons_self, hnamed⟩
    · rintro w key ⟨found, hmem, hnamed⟩
      exact ⟨found, List.mem_cons_of_mem _ hmem, hnamed⟩

theorem applyProviderFacts_tended {graph staged : Graph} {batches : List ProviderFactBatch}
    {updates : List ClaimBindingUpdate} (h : graph.applyProviderFacts batches updates = .ok staged) :
    (Owned.Tended none (NamesNode batches) graph.nodeFacts staged.nodeFacts ∧
      Owned.Spared none graph.nodeFacts staged.nodeFacts) ∧
    Owned.Tended [] (NamesEdge batches) graph.edgeFacts staged.edgeFacts ∧
      Owned.Spared [] graph.edgeFacts staged.edgeFacts := by
  simp only [applyProviderFacts, check_bind_ok, check_pure_ok] at h
  obtain ⟨_, -, _, hwithdrawn, staging, hbatches, added, hadded, _, -, rfl⟩ := h
  obtain ⟨_, rfl⟩ := setClaimBindings_frame hwithdrawn
  obtain ⟨_, rfl⟩ := setClaimBindings_frame hadded
  have htended := applyBatches_tended hbatches
  exact htended

/-! Updates without a writer. -/

theorem unowned_of_not_hasFactWriters {graph : Graph} (h : ¬graph.hasFactWriters) :
    (∀ id, graph.nodeFacts.owner id = none) ∧ ∀ key, graph.edgeFacts.owner key = none := by
  simp only [hasFactWriters, Bool.or_eq_true, Bool.not_eq_true', not_or, Bool.not_eq_false] at h
  constructor
  · intro id
    simp [nodeFacts, Std.ExtTreeMap.isEmpty_iff.mp h.1]
  · intro key
    simp [edgeFacts, Std.ExtTreeMap.isEmpty_iff.mp h.2]

/-- Once any fact has a writer, a legacy update names no fact at all. -/
theorem apply_tended {graph staged : Graph} {nodes : List Node} {edges : List Edge}
    (h : graph.apply nodes edges = .ok staged) :
    Owned.Tended none (fun _ _ => False) graph.nodeFacts staged.nodeFacts ∧
      Owned.Tended [] (fun _ _ => False) graph.edgeFacts staged.edgeFacts := by
  simp only [apply, check_bind_ok, refuseIf_ok, check_pure_ok] at h
  obtain ⟨_, hlegacy, applied, happlied, rfl⟩ := h
  have hrevised := applyFactValues_revised happlied
  have hunnamed : ∀ {A B : Type} {before : B → Option FactWriterId} {b : B} {w : FactWriterId}
      {items : List A} {key : A → B}, before b = some w → (∀ b, before b = none) ∨ items = [] →
      b ∉ items.map key := by
    rintro A B before b w items key hw (hnone | rfl)
    · simp [hnone b] at hw
    · simp
  have hquiet : ((∀ id, graph.nodeFacts.owner id = none) ∨ nodes = []) ∧
      ((∀ key, graph.edgeFacts.owner key = none) ∨ edges = []) := by
    by_cases hwriters : graph.hasFactWriters
    · have hnothing : nodes = [] ∧ edges = [] := by
        by_contra hsome
        exact hlegacy ⟨by tauto, hwriters⟩
      exact ⟨.inr hnothing.1, .inr hnothing.2⟩
    · obtain ⟨hnodes, hedges⟩ := unowned_of_not_hasFactWriters hwriters
      exact ⟨.inl hnodes, .inl hedges⟩
  refine ⟨⟨?_, ?_, hrevised.nodeKept⟩, ⟨?_, ?_, hrevised.edgeKept⟩⟩
  · intro id w hw
    simpa only [nodeFacts, hrevised.nodeWriters] using hw
  · intro id w hw hne
    exact hne (hrevised.node id (hunnamed hw hquiet.1))
  · intro key w hw
    simpa only [edgeFacts, hrevised.edgeWriters] using hw
  · intro key w hw hne
    exact hne (hrevised.edge key (hunnamed hw hquiet.2))

theorem applyResourceFacts_tended {graph staged : Graph} {nodes : List Node} {edges : List Edge}
    {updates : List ClaimBindingUpdate}
    (h : graph.applyResourceFacts nodes edges updates = .ok staged) :
    Owned.Tended none (fun _ _ => False) graph.nodeFacts staged.nodeFacts ∧
      Owned.Tended [] (fun _ _ => False) graph.edgeFacts staged.edgeFacts := by
  simp only [applyResourceFacts, check_bind_ok, check_pure_ok] at h
  obtain ⟨_, -, _, hwithdrawn, applied, happlied, added, hadded, _, -, rfl⟩ := h
  obtain ⟨_, rfl⟩ := setClaimBindings_frame hwithdrawn
  obtain ⟨_, rfl⟩ := setClaimBindings_frame hadded
  have htended := apply_tended happlied
  exact htended

/-! Adoption. -/

/-- Adopting keeps the writers that are there. -/
structure Adoption.Extends (before after : Adoption) : Prop where
  node : ∀ (id : NodeId) w, before.nodeWriters[id]? = some w → after.nodeWriters[id]? = some w
  edge : ∀ (key : FactEdge) w, before.edgeWriters[key]? = some w → after.edgeWriters[key]? = some w

theorem Adoption.Extends.refl (adoption : Adoption) : adoption.Extends adoption :=
  ⟨fun _ _ h => h, fun _ _ h => h⟩

theorem Adoption.Extends.trans {first second third : Adoption} (h : first.Extends second)
    (h' : second.Extends third) : first.Extends third :=
  ⟨fun id w hw => h'.node id w (h.node id w hw), fun key w hw => h'.edge key w (h.edge key w hw)⟩

theorem adoptNode_ok {graph : Graph} {writer : FactWriterId} {before after : Adoption}
    {node : NodeId} : graph.adoptNode writer before node = .ok after ↔
      node ∉ before.seenNodes ∧ node ∈ graph.nodes ∧
      (∀ owner, before.nodeWriters[node]? = some owner → owner = writer) ∧
      { before with
        nodeWriters := before.nodeWriters.insert node writer
        seenNodes := node :: before.seenNodes } = after := by
  simp only [adoptNode, check_bind_ok, exists_const, refuseIf_ok, not_not]
  cases before.nodeWriters[node]? with
  | none => simp only [check_pure_ok, reduceCtorEq, false_implies, implies_true, true_and]
  | some owner =>
    simp only [check_bind_ok, refuseIf_ok, not_not, exists_const, check_pure_ok, Option.some.injEq,
      forall_eq']

theorem adoptEdge_ok {graph : Graph} {writer : FactWriterId} {before after : Adoption}
    {edge : FactEdge} : graph.adoptEdge writer before edge = .ok after ↔
      edge ∉ before.seenEdges ∧ graph.edges.any (fun existing => existing.key = edge) ∧
      (∀ owner, before.edgeWriters[edge]? = some owner → owner = writer) ∧
      { before with
        edgeWriters := before.edgeWriters.insert edge writer
        seenEdges := edge :: before.seenEdges } = after := by
  simp only [adoptEdge, check_bind_ok, exists_const, refuseIf_ok, not_not]
  cases before.edgeWriters[edge]? with
  | none => simp only [check_pure_ok, reduceCtorEq, false_implies, implies_true, true_and]
  | some owner =>
    simp only [check_bind_ok, refuseIf_ok, not_not, exists_const, check_pure_ok, Option.some.injEq,
      forall_eq']

theorem adoptNode_extends {graph : Graph} {writer : FactWriterId} {before after : Adoption}
    {node : NodeId} (h : graph.adoptNode writer before node = .ok after) : before.Extends after := by
  obtain ⟨-, -, howner, rfl⟩ := adoptNode_ok.mp h
  refine ⟨fun id w hw => ?_, fun _ _ hw => hw⟩
  rw [OrdMap.get_insert]
  split
  · rename_i heq
    subst heq
    rw [howner w hw]
  · exact hw

theorem adoptEdge_extends {graph : Graph} {writer : FactWriterId} {before after : Adoption}
    {edge : FactEdge} (h : graph.adoptEdge writer before edge = .ok after) :
    before.Extends after := by
  obtain ⟨-, -, howner, rfl⟩ := adoptEdge_ok.mp h
  refine ⟨fun _ _ hw => hw, fun key w hw => ?_⟩
  rw [OrdMap.get_insert]
  split
  · rename_i heq
    subst heq
    rw [howner w hw]
  · exact hw

theorem adoptAssignment_extends {graph : Graph} {before after : Adoption}
    {assignment : FactWriterAssignment} (h : graph.adoptAssignment before assignment = .ok after) :
    before.Extends after := by
  simp only [adoptAssignment, check_bind_ok] at h
  obtain ⟨middle, hnodes, hedges⟩ := h
  have hfirst := @foldlM_invariant _ _ _ _ before.Extends
    (fun _ _ _ hnode hbefore => hbefore.trans (adoptNode_extends hnode)) _ _ _ hnodes (.refl before)
  exact @foldlM_invariant _ _ _ _ before.Extends
    (fun _ _ _ hedge hbefore => hbefore.trans (adoptEdge_extends hedge)) _ _ _ hedges hfirst

theorem adoptFactWriters_tended {graph staged : Graph} {assignments : List FactWriterAssignment}
    (h : graph.adoptFactWriters assignments = .ok staged) :
    Owned.Tended none (fun _ _ => False) graph.nodeFacts staged.nodeFacts ∧
      Owned.Tended [] (fun _ _ => False) graph.edgeFacts staged.edgeFacts := by
  simp only [adoptFactWriters, check_bind_ok, check_pure_ok] at h
  obtain ⟨adoption, hadoption, rfl⟩ := h
  have hextends := @foldlM_invariant _ _ _ _
    (Adoption.Extends ⟨graph.nodeFactWriters, graph.edgeFactWriters, [], []⟩)
    (fun _ _ _ hassigned hbefore => hbefore.trans (adoptAssignment_extends hassigned)) _ _ _
    hadoption (.refl _)
  exact ⟨⟨hextends.node, fun _ _ _ hne => absurd rfl hne, fun _ hid => hid⟩,
    ⟨hextends.edge, fun _ _ _ hne => absurd rfl hne, fun _ hkey => hkey⟩⟩

end Graph
end Archon.Kernel
