import Archon.Kernel.Run

/-! Containment. Every accepted update of the facts is checked for cycles, so in
a reachable graph the containers of a node form a chain that ends, and the
bounded walks of the model are the unbounded loops of the source. -/
namespace Archon.Kernel
open Fallible

namespace Graph

/-- Every chain of containers ends within the number of contained nodes. -/
def Grounded (parent : OrdMap NodeId NodeId) : Prop :=
  ∀ id : NodeId, Forest.Ends (fun id : NodeId => parent[id]?) parent.size id

/-! The cycle check. -/

theorem ends_of_reachesTop {parent : OrdMap NodeId NodeId} {fuel : Nat} {visited : List NodeId}
    {node : NodeId} (h : reachesTop parent (fuel + 1) visited (some node)) :
    Forest.Ends (fun id : NodeId => parent[id]?) fuel node := by
  induction fuel generalizing visited node with
  | zero =>
    rw [reachesTop] at h
    split at h
    · cases h
    · cases hnext : parent[node]? with
      | none => exact hnext
      | some container => simp [hnext, reachesTop] at h
  | succ fuel ih =>
    intro container hnext
    rw [reachesTop] at h
    split at h
    · cases h
    · simp only at hnext
      rw [hnext] at h
      exact ih h

/-- The containers that the edges name, as the index holds them. -/
def containers (edges : List Edge) : OrdMap NodeId NodeId :=
  (edges.filter fun edge => edge.kind = .contains).foldl
    (fun index edge => index.insert edge.toNode edge.fromNode) ∅

theorem foldlM_stageContainer_ok {edges : List Edge} {parent result : OrdMap NodeId NodeId}
    (h : edges.foldlM stageContainer parent = .ok result) :
    result = (edges.filter fun edge => edge.kind = .contains).foldl
      (fun index edge => index.insert edge.toNode edge.fromNode) parent := by
  induction edges generalizing parent with
  | nil =>
    cases h
    rfl
  | cons edge rest ih =>
    rw [List.foldlM_cons, check_bind_ok] at h
    obtain ⟨staged, hstaged, hrest⟩ := h
    rw [ih hrest]
    unfold stageContainer at hstaged
    split at hstaged
    · rename_i hkind
      cases hstaged
      rw [List.filter_cons_of_neg (by simpa using hkind)]
    · rename_i hkind
      simp only [check_bind_ok, check_pure_ok] at hstaged
      obtain ⟨_, -, _, -, rfl⟩ := hstaged
      rw [List.filter_cons_of_pos (by simpa using hkind), List.foldl_cons]

/-- Edges that pass the check name chains that end. -/
theorem validateContains_ok {edges : List Edge} (h : validateContains edges = .ok ()) :
    Grounded (containers edges) := by
  intro id
  simp only [validateContains, check_bind_ok] at h
  obtain ⟨parent, hparent, hchecked⟩ := h
  obtain rfl : parent = containers edges := foldlM_stageContainer_ok hparent
  simp only [List.forM_eq_forM, forM_ok, refuseIf_ok, not_not] at hchecked
  cases hid : (containers edges)[id]? with
  | some container =>
    refine ends_of_reachesTop (hchecked id ?_)
    rw [Std.ExtTreeMap.mem_keys, OrdMap.mem_iff]
    exact ⟨container, hid⟩
  | none =>
    cases (containers edges).size with
    | zero => exact hid
    | succ fuel => exact fun container hcontainer => by simp [hid] at hcontainer

/-! Updates. -/

theorem applyFactValues_grounded {graph staged : Graph} {nodes : List Node} {edges : List Edge}
    (h : graph.applyFactValues nodes edges = .ok staged) : Grounded staged.parent := by
  simp only [applyFactValues, check_bind_ok, check_pure_ok] at h
  obtain ⟨_, -, stagedEdges, -, _, hcontains, _, -, rfl⟩ := h
  exact validateContains_ok hcontains

theorem apply_grounded {graph staged : Graph} {nodes : List Node} {edges : List Edge}
    (h : graph.apply nodes edges = .ok staged) : Grounded staged.parent := by
  simp only [apply, check_bind_ok, check_pure_ok] at h
  obtain ⟨_, -, applied, happlied, rfl⟩ := h
  have hgrounded := applyFactValues_grounded happlied
  exact hgrounded

/-- Claim contracts move no fact. -/
theorem setClaimBinding_frame {graph staged : Graph} {update : ClaimBindingUpdate}
    (h : graph.setClaimBinding update = .ok staged) :
    ∃ claimBindings, staged = { graph with claimBindings } := by
  simp only [setClaimBinding, check_bind_ok] at h
  obtain ⟨_, -, h⟩ := h
  split at h
  · cases h
    exact ⟨_, rfl⟩
  · split at h
    · cases h
      exact ⟨_, rfl⟩
    · split at h <;>
      · cases h
        exact ⟨_, rfl⟩

theorem setClaimBindings_frame {updates : List ClaimBindingUpdate} {graph staged : Graph}
    (h : updates.foldlM setClaimBinding graph = .ok staged) :
    ∃ claimBindings, staged = { graph with claimBindings } := by
  refine @foldlM_invariant _ _ _ _
    (fun after => ∃ claimBindings, after = { graph with claimBindings }) ?_ _ _ _ h ⟨_, rfl⟩
  rintro _ _ _ hset ⟨_, rfl⟩
  obtain ⟨claimBindings, rfl⟩ := setClaimBinding_frame hset
  exact ⟨claimBindings, rfl⟩

theorem applyBatch_grounded {staging staged : Staging} {batch : ProviderFactBatch}
    (h : applyBatch staging batch = .ok staged) : Grounded staged.graph.parent := by
  simp only [applyBatch, check_bind_ok, check_pure_ok] at h
  obtain ⟨_, -, _, -, applied, happlied, rfl⟩ := h
  have hgrounded := applyFactValues_grounded happlied
  exact hgrounded

end Graph

namespace Cluster
open Archon.Kernel.Graph

theorem Staged.grounded {graph staged : Graph} {command : Command} (h : Staged graph command staged)
    (hgraph : Grounded graph.parent) : Grounded staged.parent := by
  cases h with
  | legacy happly => exact apply_grounded happly
  | resource hfacts =>
    simp only [Graph.applyResourceFacts, check_bind_ok, check_pure_ok] at hfacts
    obtain ⟨_, -, _, -, applied, happlied, added, hadded, _, -, rfl⟩ := hfacts
    obtain ⟨_, rfl⟩ := setClaimBindings_frame hadded
    have hgrounded := apply_grounded happlied
    exact hgrounded
  | provider hfacts =>
    simp only [Graph.applyProviderFacts, check_bind_ok, check_pure_ok] at hfacts
    obtain ⟨_, -, _, hwithdrawn, staging, hbatches, added, hadded, _, -, rfl⟩ := hfacts
    obtain ⟨_, rfl⟩ := setClaimBindings_frame hwithdrawn
    obtain ⟨_, rfl⟩ := setClaimBindings_frame hadded
    have hgrounded := @foldlM_invariant _ _ _ _ (fun staging => Grounded staging.graph.parent)
      (fun _ _ _ hbatch _ => applyBatch_grounded hbatch) _ _ _ hbatches hgraph
    exact hgrounded

theorem grounded_step {c c' : Cluster} {command : Command} (hstep : Step c command c')
    (h : Grounded c.graph.parent) : Grounded c'.graph.parent := by
  cases hstep with
  | install _ hstaged => exact hstaged.grounded h
  | annotate hannotated =>
    rw [hannotated.nodes.2]
    exact h
  | retry | enter | advance | release | finish | bind | rebind | lose | hello | restate | raise =>
    exact h

theorem grounded_run (events : List Event) : Grounded (run events).graph.parent :=
  @run_invariant (fun c => Grounded c.graph.parent) (fun _ => rfl) (fun _ _ _ _ _ h => h)
    (fun _ _ _ hstep h => grounded_step hstep h) events

end Cluster
end Archon.Kernel
