import Archon.Kernel.Topology
import Archon.Kernel.Replay

/-! Snapshots from before observations were kept apart from attributes. Restoring
one moves each node's health out of its attributes; a graph that the cluster has
built has no such attribute, so restoring it changes nothing. -/
namespace Archon.Kernel
open Fallible

namespace Graph

/-- The nodes that still carry their health as an attribute. -/
def legacyHealth (self : Graph) : List (NodeId × String) :=
  self.nodes.toList.filterMap fun item => item.2.attrs["health"]?.map fun health => (item.1, health)

/-- An observation that is already there stays. -/
def migrateLegacyObservations (self : Graph) : Graph :=
  { self with
    nodes := self.nodes.map fun _ node => { node with attrs := node.attrs.erase "health" }
    observations := self.legacyHealth.foldl (fun observations item =>
      OrdMap.upsert observations item.1 ∅ (·.insertIfNew "health" item.2)) self.observations }

/-- No node carries its health as an attribute. -/
def Healthless (self : Graph) : Prop :=
  ∀ (id : NodeId) node, self.nodes[id]? = some node → "health" ∉ node.attrs

theorem Healthless.frame {graph other : Graph} (h : Healthless graph) (hnodes : other.nodes = graph.nodes) :
    Healthless other := by
  unfold Healthless
  rw [hnodes]
  exact h

theorem migrated_healthless (graph : Graph) : Healthless graph.migrateLegacyObservations := by
  intro id node hnode
  simp only [migrateLegacyObservations, Std.ExtTreeMap.getElem?_map, Option.map_eq_some_iff] at hnode
  obtain ⟨before, -, rfl⟩ := hnode
  simp

/-- Restoring a graph that has nothing to move leaves it alone. -/
theorem Healthless.migrate {graph : Graph} (h : Healthless graph) :
    graph.migrateLegacyObservations = graph := by
  have hnodes : (graph.nodes.map fun _ node => { node with attrs := node.attrs.erase "health" }) =
      graph.nodes := by
    refine Std.ExtTreeMap.ext_getElem? fun id => ?_
    rw [Std.ExtTreeMap.getElem?_map]
    cases hnode : graph.nodes[id]? with
    | none => rfl
    | some node =>
      have hnone : node.attrs["health"]? = none := Std.ExtTreeMap.getElem?_eq_none (h id node hnode)
      rw [Option.map_some, OrdMap.erase_eq_self hnone]
  have hlegacy : graph.legacyHealth = [] := by
    refine List.filterMap_eq_nil_iff.mpr fun item hitem => ?_
    have hnode := Std.ExtTreeMap.mem_toList_iff_getElem?_eq_some.mp hitem
    rw [Std.ExtTreeMap.getElem?_eq_none (h item.1 item.2 hnode)]
    rfl
  rw [migrateLegacyObservations, hnodes, hlegacy]
  rfl

theorem stageNodes_healthless {nodes : List Node} {before after : OrdMap NodeId Node}
    (h : nodes.foldlM stageNode before = .ok after)
    (hbefore : ∀ (id : NodeId) node, before[id]? = some node → "health" ∉ node.attrs) :
    ∀ (id : NodeId) node, after[id]? = some node → "health" ∉ node.attrs := by
  induction nodes generalizing before with
  | nil =>
    cases h
    exact hbefore
  | cons staged rest ih =>
    rw [List.foldlM_cons, check_bind_ok] at h
    obtain ⟨next, hnext, hrest⟩ := h
    simp only [stageNode, check_bind_ok, refuseIf_ok, check_pure_ok] at hnext
    obtain ⟨_, hclean, rfl⟩ := hnext
    refine ih hrest fun id node hnode => ?_
    rw [OrdMap.get_insert] at hnode
    split at hnode
    · cases hnode
      exact hclean
    · exact hbefore id node hnode

theorem applyFactValues_healthless {graph staged : Graph} {nodes : List Node} {edges : List Edge}
    (h : graph.applyFactValues nodes edges = .ok staged) (hgraph : Healthless graph) :
    Healthless staged := by
  simp only [applyFactValues, check_bind_ok, check_pure_ok] at h
  obtain ⟨stagedNodes, hnodes, _, -, _, -, _, -, rfl⟩ := h
  exact stageNodes_healthless hnodes hgraph

theorem apply_healthless {graph staged : Graph} {nodes : List Node} {edges : List Edge}
    (h : graph.apply nodes edges = .ok staged) (hgraph : Healthless graph) : Healthless staged := by
  simp only [Graph.apply, check_bind_ok, check_pure_ok] at h
  obtain ⟨_, -, applied, happlied, rfl⟩ := h
  exact (applyFactValues_healthless happlied hgraph).frame rfl

theorem applyBatches_healthless {batches : List ProviderFactBatch} {staging staged : Staging}
    (h : batches.foldlM applyBatch staging = .ok staged) (hgraph : Healthless staging.graph) :
    Healthless staged.graph := by
  induction batches generalizing staging with
  | nil =>
    cases h
    exact hgraph
  | cons batch rest ih =>
    rw [List.foldlM_cons, check_bind_ok] at h
    obtain ⟨next, hnext, hrest⟩ := h
    simp only [applyBatch, check_bind_ok, check_pure_ok] at hnext
    obtain ⟨_, -, _, -, applied, happlied, rfl⟩ := hnext
    exact ih hrest ((applyFactValues_healthless happlied hgraph).frame rfl)

theorem applyProviderFacts_healthless {graph staged : Graph} {batches : List ProviderFactBatch}
    {updates : List ClaimBindingUpdate} (h : graph.applyProviderFacts batches updates = .ok staged)
    (hgraph : Healthless graph) : Healthless staged := by
  simp only [applyProviderFacts, check_bind_ok, check_pure_ok] at h
  obtain ⟨_, -, _, hwithdrawn, staging, hbatches, added, hadded, _, -, rfl⟩ := h
  obtain ⟨_, rfl⟩ := setClaimBindings_frame hwithdrawn
  obtain ⟨_, rfl⟩ := setClaimBindings_frame hadded
  exact (applyBatches_healthless hbatches (hgraph.frame rfl)).frame rfl

end Graph

namespace Cluster
open Archon.Kernel.Graph

variable {c c' : Cluster} {command : Command}

def migrateLegacyObservations (self : Cluster) : Cluster :=
  { self with graph := self.graph.migrateLegacyObservations }

theorem Staged.healthless {graph staged : Graph} (h : Staged graph command staged)
    (hgraph : Healthless graph) : Healthless staged := by
  cases h with
  | legacy hlegacy => exact apply_healthless hlegacy hgraph
  | resource hfacts =>
    simp only [Graph.applyResourceFacts, check_bind_ok, check_pure_ok] at hfacts
    obtain ⟨_, -, _, hwithdrawn, applied, happlied, added, hadded, _, -, rfl⟩ := hfacts
    obtain ⟨_, rfl⟩ := setClaimBindings_frame hwithdrawn
    obtain ⟨_, rfl⟩ := setClaimBindings_frame hadded
    exact (apply_healthless happlied (hgraph.frame rfl)).frame rfl
  | provider hfacts => exact applyProviderFacts_healthless hfacts hgraph

theorem Annotated.healthless {staged : Graph} (h : Annotated c command staged)
    (hgraph : Healthless c.graph) : Healthless staged := by
  cases h with
  | adopt _ hadopted =>
    simp only [Graph.adoptFactWriters, check_bind_ok, check_pure_ok] at hadopted
    obtain ⟨_, -, rfl⟩ := hadopted
    exact hgraph.frame rfl
  | observe hobserved =>
    unfold Graph.setObservation at hobserved
    split at hobserved
    · cases hobserved
      exact hgraph.frame rfl
    · cases hobserved

theorem healthless_step (hstep : Step c command c') (h : Healthless c.graph) : Healthless c'.graph := by
  cases hstep with
  | install _ hstaged => exact hstaged.healthless h
  | annotate hannotated => exact hannotated.healthless h
  | retry | enter | advance | release | finish | bind | rebind | lose | hello | restate | raise =>
    exact h

theorem healthless_apply {effects : List Effect} (happly : apply command c = .ok effects c')
    (h : Healthless c.graph) : Healthless c'.graph := by
  obtain ⟨next, hstep, rfl⟩ := apply_ok_iff.mp ⟨effects, happly⟩
  have hnext : Healthless next.graph := healthless_step hstep h
  exact hnext

theorem migrate_of_healthless (h : Healthless c.graph) : c.migrateLegacyObservations = c := by
  rw [migrateLegacyObservations, h.migrate]

end Cluster
end Archon.Kernel
