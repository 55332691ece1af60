import Archon.Kernel.Locality

/-! What a refusal of a local request says. Greedy selection does not go back on a
choice, so the refusal of unconstrained needs shows a dead end on every machine,
not that no machine could host the needs. -/
namespace Archon.Kernel
open Fallible Select

/-- The group may be given to the need: known nodes of its kind with its attributes,
contracts and room, units of a local request beneath one nearest machine. -/
structure Fits (graph : Graph) (occupancy : Occupancy) (quarantine : List NodeId)
    (machineLocal : Bool) (allowed : Option (List NodeId)) (need : Need) (group : List Claim) :
    Prop where
  claimable : need.kind ≠ .dataObject
  asked : GroupFor need group
  suits : ∀ claim ∈ group, Suits graph occupancy quarantine need claim
  within : ∀ claim ∈ group, ∀ nodes ∈ allowed, claim.node ∈ nodes
  together : machineLocal → isConsumableNeed need = false →
    ∃ machine, ∀ claim ∈ group, graph.machineOf claim.node = some machine

/-- The machine hosts the needs by these groups, each on nodes of its own. -/
def Hosts (graph : Graph) (occupancy : Occupancy) (quarantine : List NodeId) (machineLocal : Bool)
    (machine : NodeId) (needs : List Need) (groups : List (List Claim)) : Prop :=
  List.Forall₂ (Fits graph occupancy quarantine machineLocal
    (some (machine :: graph.descendants machine))) needs groups ∧ DistinctNodes groups.flatten

/-- Some choice for the first needs leaves the next one without nodes on the machine. -/
def DeadEnd (graph : Graph) (occupancy : Occupancy) (quarantine : List NodeId) (machine : NodeId)
    (needs : List Need) : Prop :=
  ∃ done need rest groups, needs = done ++ need :: rest ∧
    Hosts graph occupancy quarantine true machine done groups ∧
    ∀ group, Fits graph occupancy quarantine true (some (machine :: graph.descendants machine))
      need group → ¬DistinctNodes (groups.flatten ++ group)

section Fits
variable {ctx : SelectCtx} {allowed : Option (List NodeId)} {need : Need} {group : List Claim}

theorem GroupFor.quantity (h : GroupFor need group) {claim : Claim} (hclaim : claim ∈ group) :
    claim.quantity = needUnit need := by
  unfold GroupFor at h
  unfold needUnit
  split at h
  · rename_i hconsumable
    obtain ⟨node, rfl⟩ := h
    rw [if_pos hconsumable, List.mem_singleton.mp hclaim]
  · rename_i hcountable
    rw [if_neg hcountable, h.2 claim hclaim]

theorem GroupFor.units (h : GroupFor need group) (hcountable : isConsumableNeed need = false) :
    group.length = (unitCount need).toNat ∧ ∀ claim ∈ group, claim.quantity = qty .count 1 := by
  rw [GroupFor, if_neg (by simp [hcountable])] at h
  exact ⟨by rw [h.1, unitCount, toNat_max]; rfl, h.2⟩

theorem Fits.offered (hfiled : ctx.graph.Filed) {machineLocal : Bool}
    (h : Fits ctx.graph ctx.occupancy ctx.quarantine machineLocal allowed need group) {claim : Claim}
    (hclaim : claim ∈ group) : Offered ctx allowed need claim.node := by
  have hsuits := h.suits claim hclaim
  rw [show claim = ⟨claim.node, needUnit need⟩ by rw [← h.asked.quantity hclaim]] at hsuits
  exact (offered_iff hfiled).mpr ⟨h.claimable, hsuits, h.within claim hclaim⟩

theorem takes_iff_fits (hfiled : ctx.graph.Filed) : Takes ctx allowed need group ↔
    Fits ctx.graph ctx.occupancy ctx.quarantine ctx.request.machineLocal allowed need group := by
  constructor
  · intro h
    have hgroup := groupFor_of_serves h.serves
    obtain ⟨first, hfirst⟩ := h.serves.claim
    obtain ⟨found, hfound, -⟩ := h.serves.candidate first hfirst
    refine ⟨candidates_kind hfound, hgroup, fun claim hclaim => ?_, h.serves.within, h.together⟩
    obtain ⟨found, hfound, hmem⟩ := h.serves.candidate claim hclaim
    exact suits_of_candidate hfiled hfound hmem (hgroup.quantity hclaim)
  · intro h
    refine ⟨⟨fun hconsumable => ?_, h.asked.units, fun claim hclaim => ?_, h.within⟩, h.together⟩
    · have hgroup := h.asked
      rwa [GroupFor, if_pos hconsumable] at hgroup
    · obtain ⟨found, hfound, hmem, -⟩ := h.offered hfiled hclaim
      exact ⟨found, hfound, hmem⟩

end Fits

section Free
variable {ctx : SelectCtx} {allowed : Option (List NodeId)} {need : Need} {group : List Claim}
  {picked : List (List Claim)}

theorem pickedNodes_concat (picked : List (List Claim)) (group : List Claim) :
    pickedNodes (picked ++ [group]) = pickedNodes picked ++ group.map Claim.node := by
  simp [pickedNodes]

theorem grows_of_group (htopology : ctx.request.topology = []) {eligible : NodeId → Prop}
    (helig : ∀ claim ∈ group, eligible claim.node)
    (hdistinct : (pickedNodes picked ++ group.map Claim.node).Nodup) :
    Grows ctx.graph ctx.request picked group.length eligible := by
  intro chosen _ hshort hholds
  rw [topologyHolds_free htopology, pickedNodes_concat] at hholds
  obtain ⟨hpicked, hgroup, happart⟩ := List.nodup_append.mp hdistinct
  obtain ⟨node, hnode, hfree⟩ : ∃ node ∈ group.map Claim.node, node ∉ chosen.map Claim.node := by
    by_contra hall
    simp only [not_exists, not_and, not_not] at hall
    have hlength := (List.subperm_of_subset hgroup hall).length_le
    simp only [List.length_map] at hlength
    omega
  obtain ⟨claim, hclaim, rfl⟩ := List.mem_map.mp hnode
  refine ⟨claim.node, helig claim hclaim, ?_⟩
  rw [topologyHolds_free htopology, pickedNodes_concat, List.map_append, ← List.append_assoc]
  refine List.nodup_append.mpr ⟨hholds, List.nodup_singleton _, ?_⟩
  rintro node hnode' _ hlast rfl
  obtain rfl : node = claim.node := by simpa using hlast
  rcases List.mem_append.mp hnode' with hearlier | hchosen
  · exact happart _ hearlier _ hnode rfl
  · exact hfree hchosen

theorem continues_of_fits (hfiled : ctx.graph.Filed) (htopology : ctx.request.topology = [])
    (h : Fits ctx.graph ctx.occupancy ctx.quarantine ctx.request.machineLocal allowed need group)
    (hdistinct : (pickedNodes picked ++ group.map Claim.node).Nodup) :
    Continues ctx allowed picked need := by
  have hoffered := fun claim hclaim => @h.offered _ _ _ _ hfiled _ claim hclaim
  refine ⟨fun hconsumable => ?_, fun hcountable hlocal => ?_, fun hcountable _ => ?_⟩
  · have hgroup := h.asked
    rw [GroupFor, if_pos hconsumable] at hgroup
    obtain ⟨node, rfl⟩ := hgroup
    refine ⟨node, hoffered _ (List.mem_singleton_self _), ?_⟩
    rwa [topologyHolds_free htopology, pickedNodes_concat]
  · obtain ⟨machine, hmachine⟩ := h.together hlocal hcountable
    rw [← (h.asked.units hcountable).1]
    exact ⟨machine, grows_of_group htopology
      (fun claim hclaim => ⟨hoffered claim hclaim, hmachine claim hclaim⟩) hdistinct⟩
  · rw [← (h.asked.units hcountable).1]
    exact grows_of_group htopology hoffered hdistinct

end Free

section Refused
variable {graph : Graph} {occupancy : Occupancy} {request : Request} {quarantine : List NodeId}

/-- Without a dead end greedy selection of a local request is never stuck. -/
theorem neverStuck_of_noDeadEnd (hfiled : graph.Filed) (hlocal : request.machineLocal)
    (htopology : request.topology = []) {machine : NodeId}
    (h : ¬DeadEnd graph occupancy quarantine machine request.needs) :
    NeverStuck ⟨graph, occupancy, request, packMode request, quarantine⟩
      (some (machine :: graph.descendants machine)) := by
  intro done need rest picked hneeds htakes hholds
  have hhosts : Hosts graph occupancy quarantine true machine done picked := by
    refine ⟨htakes.imp fun _ _ htake => ?_, (topologyHolds_free htopology picked).mp hholds⟩
    rw [← hlocal]
    exact (takes_iff_fits hfiled).mp htake
  obtain ⟨group, hfits, hdistinct⟩ : ∃ group, Fits graph occupancy quarantine true
      (some (machine :: graph.descendants machine)) need group ∧
      DistinctNodes (picked.flatten ++ group) := by
    by_contra hstuck
    exact h ⟨done, need, rest, picked, hneeds, hhosts, fun group hfits hdistinct =>
      hstuck ⟨group, hfits, hdistinct⟩⟩
  refine continues_of_fits hfiled htopology (by rwa [← hlocal] at hfits) ?_
  rwa [DistinctNodes, List.map_append] at hdistinct

/-- Where unconstrained needs of a local request are refused, every open machine
has a dead end. -/
theorem refused_deadEnd (hfiled : graph.Filed) (hlocal : request.machineLocal)
    (hneeds : 1 < request.needs.length) (htopology : request.topology = [])
    (hrefused : select graph occupancy request quarantine =
      .error (.refused "no single machine hosts every need of this workload")) :
    ∀ machine ∈ graph.nodesOfClass .machine, isBlocked graph quarantine machine = false →
      DeadEnd graph occupancy quarantine machine request.needs := by
  intro machine hmachine hclear
  by_contra hopen
  have hunfailing : Unfailing graph occupancy request quarantine := by
    rw [Unfailing, if_pos ⟨hlocal, hneeds⟩]
    exact ⟨machine, hmachine, hclear, neverStuck_of_noDeadEnd hfiled hlocal htopology hopen⟩
  obtain ⟨allocation, hselect⟩ := select_of_unfailing hunfailing (by simp [htopology])
  rw [hrefused] at hselect
  cases hselect

end Refused

namespace Sample

/-- Two gpus, the first of a model. -/
def gpuPair : List Event := [
  .apply (.applyResourceFacts
    [⟨1, .machine, ∅, ∅⟩, ⟨2, .gpu, (∅ : Attrs).insert "model" "a", qty .count 1⟩,
      ⟨3, .gpu, ∅, qty .count 1⟩]
    [⟨1, 2, .contains, ∅⟩, ⟨1, 3, .contains, ∅⟩]
    [⟨2, .count, some ⟨.enforce, .exclusive⟩⟩, ⟨3, .count, some ⟨.enforce, .exclusive⟩⟩])]

def gpuPairGraph : Graph := (Cluster.run gpuPair).graph

/-- A gpu, and a gpu of the model. -/
def modelRequest : Request := localRequest
  [⟨.gpu, qty .count 1, []⟩, ⟨.gpu, qty .count 1, [⟨"model", "a"⟩]⟩]

end Sample

theorem model_request_refused : select Sample.gpuPairGraph ⟨∅⟩ Sample.modelRequest [] =
    .error (.refused "no single machine hosts every need of this workload") := by
  decide +kernel

theorem gpu_pair_dead_end : DeadEnd Sample.gpuPairGraph ⟨∅⟩ [] 1 Sample.modelRequest.needs :=
  refused_deadEnd (Cluster.filed_run _) rfl (by decide) rfl model_request_refused 1
    (by decide +kernel) (by decide +kernel)

/-- The gpus answer both needs, though the request is refused. -/
theorem gpu_pair_refused :
    ¬∀ (graph : Graph) (occupancy : Occupancy) (request : Request) (quarantine : List NodeId),
      graph.Filed → request.machineLocal → 1 < request.needs.length → request.topology = [] →
      select graph occupancy request quarantine =
        .error (.refused "no single machine hosts every need of this workload") →
      ∀ machine ∈ graph.nodesOfClass .machine, isBlocked graph quarantine machine = false →
        ¬∃ groups, Hosts graph occupancy quarantine false machine request.needs groups := by
  intro h
  refine h Sample.gpuPairGraph ⟨∅⟩ Sample.modelRequest [] (Cluster.filed_run _) rfl (by decide) rfl
    model_request_refused 1 (by decide +kernel) (by decide +kernel) ⟨[[⟨3, qty .count 1⟩], [⟨2, qty .count 1⟩]], ?_⟩
  have hwithin : ∀ node ∈ [2, 3], node ∈ 1 :: Sample.gpuPairGraph.descendants 1 := by decide +kernel
  have hfits : ∀ need node found, isConsumableNeed need = false → unitCount need = 1 →
      node ∈ [2, 3] → candidates Sample.gpuPairGraph ⟨∅⟩ need [] = .ok found → node ∈ found →
      Fits Sample.gpuPairGraph ⟨∅⟩ [] false (some (1 :: Sample.gpuPairGraph.descendants 1)) need
        [⟨node, qty .count 1⟩] := by
    intro need node found hcountable hunits hnode hfound hmem
    refine (@takes_iff_fits ⟨Sample.gpuPairGraph, ⟨∅⟩, { Sample.modelRequest with machineLocal := false },
      .pack, []⟩ _ need _ (Cluster.filed_run _)).mp ⟨?_, nofun⟩
    refine serves_units hcountable hfound (by rw [hunits]; rfl) fun claim hclaim => ?_
    rw [List.mem_singleton.mp hclaim]
    exact ⟨hmem, by simpa using hwithin node hnode, rfl⟩
  have hcandidates : candidates Sample.gpuPairGraph ⟨∅⟩ ⟨.gpu, qty .count 1, []⟩ [] = .ok [2, 3] ∧
      candidates Sample.gpuPairGraph ⟨∅⟩ ⟨.gpu, qty .count 1, [⟨"model", "a"⟩]⟩ [] = .ok [2] := by
    decide +kernel
  refine ⟨.cons (hfits _ 3 _ (by decide +kernel) (by decide +kernel) (by decide) hcandidates.1 (by decide))
    (.cons (hfits _ 2 _ (by decide +kernel) (by decide +kernel) (by decide) hcandidates.2 (by decide))
      .nil), ?_⟩
  simp only [DistinctNodes, List.flatten_cons, List.flatten_nil, List.append_nil,
    List.singleton_append, List.map_cons, List.map_nil]
  decide

end Archon.Kernel
