import Archon.Node.Turns
import Archon.Kernel.Candidates
import Archon.Kernel.Ownership

/-! Registration in moves. A machine that is new to the controller gets fresh ids,
so it has had no session before; a known machine with a session starts over with
a blank recovery before its next session is announced. -/
namespace Archon.Node
open Archon.Kernel Fallible

namespace Discover

/-- From `base` on, ids grow, and what is handed out is good. -/
def HandsOut {α : Type} (base : Nat) (program : IdGen α) (good : α → Prop) : Prop :=
  ∀ s a s', base ≤ s.toNat → program.run s = some (a, s') → base ≤ s'.toNat ∧ good a

section HandsOut
variable {base : Nat} {α β : Type}

theorem handsOut_pure {a : α} {good : α → Prop} (h : good a) :
    HandsOut base (pure a : IdGen α) good := by
  intro s a' s' hs hrun
  cases hrun
  exact ⟨hs, h⟩

theorem handsOut_bind {program : IdGen α} {next : α → IdGen β} {mid : α → Prop} {good : β → Prop}
    (h : HandsOut base program mid) (hnext : ∀ a, mid a → HandsOut base (next a) good) :
    HandsOut base (program >>= next) good := by
  intro s b s' hs hrun
  rw [StateT.run_bind, Option.bind_eq_bind, Option.bind_eq_some_iff] at hrun
  obtain ⟨⟨a, t⟩, ha, hb⟩ := hrun
  obtain ⟨ht, hmid⟩ := h s a t hs ha
  exact hnext a hmid t b s' ht hb

theorem handsOut_freshNode : HandsOut base freshNode fun id => base < id.asU64.toNat := by
  intro s id s' hs hrun
  by_cases hlast : s = 18446744073709551615
  · subst hlast
    cases hrun
  · have hnext : freshNode.run s = some (⟨s + 1⟩, s + 1) := by
      unfold freshNode
      simp [hlast]
    rw [hnext] at hrun
    cases hrun
    have hbound : s.toNat ≠ 18446744073709551615 := by
      intro heq
      exact hlast (UInt64.toNat_inj.mp heq)
    have hsmall : s.toNat < 18446744073709551616 := s.toNat_lt
    have hsum : (s + 1).toNat = s.toNat + 1 := by
      rw [UInt64.toNat_add]
      change (s.toNat + 1) % 18446744073709551616 = _
      omega
    simp only [hsum]
    omega

theorem handsOut_freshNodes (count : Nat) :
    HandsOut base (freshNodes count) fun ids => ∀ id ∈ ids, base < id.asU64.toNat := by
  induction count with
  | zero => exact handsOut_pure (by simp)
  | succ count ih =>
    refine handsOut_bind handsOut_freshNode fun id hid => handsOut_bind ih fun ids hids => ?_
    exact handsOut_pure (by simpa using ⟨hid, hids⟩)

theorem handsOut_lift {found : Option α} : HandsOut base (liftM found : IdGen α) fun _ => True := by
  intro s a s' hs hrun
  cases found with
  | none => cases hrun
  | some b =>
    cases hrun
    exact ⟨hs, trivial⟩

theorem handsOut_mapM {items : List α} {body : α → IdGen β} {good : β → Prop}
    (h : ∀ a ∈ items, HandsOut base (body a) good) :
    HandsOut base (items.mapM body) fun made => ∀ b ∈ made, good b := by
  induction items with
  | nil =>
    rw [List.mapM_nil]
    exact handsOut_pure (by simp)
  | cons a items ih =>
    rw [List.mapM_cons]
    refine handsOut_bind (h a List.mem_cons_self) fun b hb =>
      handsOut_bind (ih fun c hc => h c (List.mem_cons_of_mem a hc)) fun rest hrest => ?_
    exact handsOut_pure (by simpa using ⟨hb, hrest⟩)

end HandsOut

/-- A placed node with an id above the base. -/
def Placed.Above (base : Nat) (placed : Placed) : Prop := base < placed.node.id.asU64.toNat

theorem flatHost_handsOut {base : Nat} (description : MachineDescription) (machine : NodeId) :
    HandsOut base (flatHost description machine) fun placed => ∀ p ∈ placed, p.Above base := by
  unfold flatHost
  refine handsOut_bind (handsOut_freshNodes _) fun cpus hcpus =>
    handsOut_bind handsOut_freshNode fun memory hmemory => handsOut_pure ?_
  intro placed hplaced
  rcases List.mem_cons.mp hplaced with rfl | hcpu
  · exact hmemory
  · obtain ⟨cpu, hmem, rfl⟩ := List.mem_map.mp hcpu
    exact hcpus cpu hmem

theorem containerOf_handsOut {base : Nat} (machine : NodeId) (hostIds : OrdMap String NodeId)
    (parent : Option String) : HandsOut base (containerOf machine hostIds parent) fun _ => True := by
  cases parent with
  | none => exact handsOut_pure trivial
  | some parent => exact handsOut_lift

theorem normalizedHost_handsOut {base : Nat} (description : MachineDescription) (machine : NodeId) :
    HandsOut base (normalizedHost description machine) fun found => ∀ p ∈ found.1, p.Above base := by
  unfold normalizedHost
  refine handsOut_bind (handsOut_freshNodes _) fun ids hids => ?_
  refine handsOut_bind (handsOut_mapM fun entry hentry => ?_) fun placed hplaced =>
    handsOut_pure hplaced
  exact handsOut_bind (containerOf_handsOut _ _ _) fun _ _ =>
    handsOut_pure (hids entry.2 (List.of_mem_zip hentry).2)

theorem hostInventory_handsOut {base : Nat} (description : MachineDescription) (machine : NodeId) :
    HandsOut base (hostInventory description machine) fun found => ∀ p ∈ found.1, p.Above base := by
  unfold hostInventory
  split
  · exact handsOut_bind (flatHost_handsOut description machine) fun _ hhost => handsOut_pure hhost
  · exact normalizedHost_handsOut description machine

theorem placeDevice_handsOut {base : Nat} (machine : NodeId) (hostIds : OrdMap String NodeId)
    (spec : DeviceSpec) : HandsOut base (placeDevice machine hostIds spec) (Placed.Above base) :=
  handsOut_bind handsOut_freshNode fun _ hdevice =>
    handsOut_bind (containerOf_handsOut _ _ _) fun _ _ => handsOut_pure hdevice

theorem machineFacts_handsOut {base : Nat} (description : MachineDescription) :
    HandsOut base (machineFacts description) fun facts =>
      ∀ node ∈ facts.1, base < node.id.asU64.toNat := by
  unfold machineFacts
  refine handsOut_bind handsOut_freshNode fun machine hmachine =>
    handsOut_bind (hostInventory_handsOut description machine) fun found hhost =>
      handsOut_bind (handsOut_mapM fun spec _ => placeDevice_handsOut machine found.2 spec)
        fun devices hdevices => handsOut_pure ?_
  intro node hnode
  rcases List.mem_cons.mp hnode with rfl | hplaced
  · exact hmachine
  · obtain ⟨placed, hmem, rfl⟩ := List.mem_map.mp hplaced
    rcases List.mem_append.mp hmem with hin | hin
    · exact hhost placed hin
    · exact hdevices placed hin

/-- Every node of a new machine's fragment has an id above the largest in use. -/
theorem buildGraph_fresh {description : MachineDescription} {base : UInt64} {nodes : List Node}
    {edges : List Edge} (h : buildGraph description base = some (nodes, edges)) :
    ∀ node ∈ nodes, base.toNat < node.id.asU64.toNat := by
  obtain ⟨⟨facts, next⟩, hrun, rfl⟩ := Option.map_eq_some_iff.mp h
  exact (machineFacts_handsOut description base _ next le_rfl hrun).2

/-- The batches of a fragment name its nodes only. -/
theorem mem_providerFactBatches {nodes : List Node} {edges : List Edge} {batch : ProviderFactBatch}
    (h : batch ∈ providerFactBatches nodes edges) {node : Node} (hnode : node ∈ batch.nodes) :
    node ∈ nodes := by
  unfold providerFactBatches at h
  obtain ⟨hbatch, -⟩ := List.mem_filter.mp h
  rcases List.mem_cons.mp hbatch with rfl | hdevice
  · exact List.mem_of_mem_filter hnode
  · obtain rfl := List.mem_singleton.mp hdevice
    exact List.mem_of_mem_filter hnode

end Discover

namespace Service

theorem le_foldl_max (nodes : List Node) (start : UInt64) :
    start.toNat ≤ (nodes.foldl (fun largest node => max largest node.id.asU64) start).toNat ∧
      ∀ node ∈ nodes,
        node.id.asU64.toNat ≤ (nodes.foldl (fun largest node => max largest node.id.asU64) start).toNat := by
  have hmax : ∀ a b : UInt64, a.toNat ≤ (max a b).toNat ∧ b.toNat ≤ (max a b).toNat := by
    intro a b
    change a.toNat ≤ (if a ≤ b then b else a).toNat ∧ b.toNat ≤ (if a ≤ b then b else a).toNat
    split
    · rename_i h
      exact ⟨UInt64.le_iff_toNat_le.mp h, le_rfl⟩
    · rename_i h
      rw [UInt64.le_iff_toNat_le] at h
      omega
  induction nodes generalizing start with
  | nil => simp
  | cons first rest ih =>
    obtain ⟨hstart, hrest⟩ := ih (max start first.id.asU64)
    obtain ⟨hleft, hright⟩ := hmax start first.id.asU64
    refine ⟨hleft.trans hstart, fun node hnode => ?_⟩
    rcases List.mem_cons.mp hnode with rfl | hmem
    · exact hright.trans hstart
    · exact hrest node hmem

theorem le_maxNodeId {graph : Graph} (hfiled : graph.Filed) {id : NodeId} {node : Node}
    (h : graph.nodes[id]? = some node) : id.asU64.toNat ≤ (maxNodeId graph).toNat := by
  have hmem := (le_foldl_max (OrdMap.vals graph.nodes) 0).2 node (OrdMap.mem_vals.mpr ⟨id, h⟩)
  rw [hfiled.key id node h] at hmem
  exact hmem

end Service
end Archon.Node

namespace Archon.Kernel.Cluster

/-- A session belongs to a node of the graph. -/
def SessionsKnown (c : Cluster) : Prop :=
  ∀ machine, machine ∈ c.sessions → c.graph.nodes[machine]? ≠ none

theorem sessionsKnown_step {c c' : Cluster} {command : Command} (h : SessionsKnown c)
    (hstep : Step c command c') : SessionsKnown c' := by
  have hkept : ∀ id : NodeId, c.graph.nodes[id]? ≠ none → c'.graph.nodes[id]? ≠ none :=
    (facts_step hstep).1.kept
  intro machine hmachine
  cases hstep with
  | @hello announced session found hnode =>
    by_cases heq : announced = machine
    · subst heq
      rw [show c.graph.nodes[announced]? = some found from hnode]
      simp
    · refine h machine ?_
      simpa [heq] using hmachine
  | _ => exact hkept machine (h machine hmachine)

theorem sessionsKnown_run (events : List Event) : SessionsKnown (run events) := by
  refine run_invariant ?_ (fun _ _ _ _ _ h => h) ?_ events
  · intro machine hmachine
    exact absurd hmachine (by simp [new])
  · intro before command c' hstep h
    exact sessionsKnown_step h hstep

/-- A batch leaves every node alone that it does not name. -/
theorem node_of_unnamed {c c' : Cluster} {batches : List ProviderFactBatch}
    {updates : List ClaimBindingUpdate} (hstep : Step c (.applyProviderFacts batches updates) c')
    {id : NodeId} (hknown : c.graph.nodes[id]? ≠ none)
    (hunnamed : ∀ batch ∈ batches, id ∉ batch.nodes.map Node.id) :
    c'.graph.nodes[id]? = c.graph.nodes[id]? := by
  cases howner : c.graph.nodeFacts.owner id with
  | none => exact ((facts_spared hstep).1 id hknown howner).1
  | some writer =>
    by_contra hchanged
    obtain ⟨batch, hbatch, -, hmem⟩ := (facts_step hstep).1.owned id writer howner hchanged
    exact hunnamed batch hbatch hmem

end Archon.Kernel.Cluster

namespace Archon.Node.Service
open Archon.Kernel Fallible

variable {own : Bool} {w : World} {α β : Type}

theorem machineNamed_some {cluster : Cluster} (hfiled : cluster.graph.Filed) {instanceId : String}
    {machine : NodeId} (h : machineNamed cluster instanceId = some machine) :
    ∃ node, cluster.graph.nodes[machine]? = some node ∧ node.kind = .machine ∧
      node.attrs["agent_id"]? = some instanceId := by
  unfold machineNamed at h
  have hclass := (hfiled.byClass .machine machine).mp (List.mem_of_find?_eq_some h)
  have hattr := List.find?_some h
  unfold Graph.hasKind at hclass
  unfold Graph.node at hclass hattr
  cases hnode : cluster.graph.nodes[machine]? with
  | none => simp [hnode] at hclass
  | some node =>
    rw [hnode] at hclass hattr
    cases hid : node.attrs["agent_id"]? with
    | none => simp [hid] at hattr
    | some found =>
      simp only [Option.bind_some, hid, Option.any_some, decide_eq_true_eq] at hattr
      exact ⟨node, rfl, by simpa using hclass, by rw [hid, hattr]⟩

theorem machineNamed_ne_none {cluster : Cluster} (hfiled : cluster.graph.Filed) {instanceId : String}
    {machine : NodeId} {node : Node} (hnode : cluster.graph.nodes[machine]? = some node)
    (hkind : node.kind = .machine) (hattr : node.attrs["agent_id"]? = some instanceId) :
    machineNamed cluster instanceId ≠ none := by
  unfold machineNamed
  rw [Ne, List.find?_eq_none]
  intro hnone
  refine hnone machine ((hfiled.byClass .machine machine).mpr ?_) ?_
  · simp [Graph.hasKind, Graph.node, hnode, hkind]
  · simp [Graph.node, hnode, hattr]

/-- A machine that registration has just made has had no session. -/
theorem newMachine_sessionless {description : MachineDescription} {machine : NodeId} {u : World}
    (hw : Grounded w) (hnone : machineNamed w.service.cluster description.instanceId = none)
    (h : newMachine description w = .ok machine u) : machine ∉ u.service.cluster.sessions := by
  unfold newMachine at h
  rw [self_bind_run] at h
  cases hbuilt : Discover.buildGraph description (maxNodeId w.service.cluster.graph) with
  | none =>
    rw [hbuilt] at h
    cases h
  | some facts =>
    obtain ⟨nodes, edges⟩ := facts
    rw [hbuilt] at h
    obtain ⟨_, _, hpure, hthen⟩ := bind_ok.mp h
    obtain ⟨rfl, rfl⟩ := pure_ok.mp hpure
    obtain ⟨_, t, hcommit, hrest⟩ := bind_ok.mp hthen
    rw [self_bind_run, check_ok] at hrest
    obtain ⟨hfound, rfl⟩ := hrest
    cases happly : Cluster.apply (.applyProviderFacts (Discover.providerFactBatches nodes edges)
        (Discover.claimBindings nodes)) w.service.cluster with
    | error e left =>
      rw [commit_run_error happly] at hcommit
      cases hcommit
    | ok effects cluster =>
      rw [commit_run_ok happly] at hcommit
      cases hcommit
      rw [service_commit] at hfound ⊢
      intro hsession
      have hbefore : machine ∈ w.service.cluster.sessions := by
        rwa [Cluster.sessions_of_apply rfl happly] at hsession
      obtain ⟨events, hrun⟩ := id hw
      have hfiled : w.service.cluster.graph.Filed := hrun ▸ Cluster.filed_run events
      have hknown : w.service.cluster.graph.nodes[machine]? ≠ none :=
        (hrun ▸ Cluster.sessionsKnown_run events : w.service.cluster.SessionsKnown) machine hbefore
      obtain ⟨next, hstep, rfl⟩ := Cluster.step_of_apply happly
      have hafter : next.graph.Filed := Cluster.filed_step hfiled hstep
      -- the fragment's ids are above every known one, so the machine is as it was
      have hsame := Cluster.node_of_unnamed hstep hknown fun batch hbatch hmem => by
        obtain ⟨node, hnode, hid⟩ := List.mem_map.mp hmem
        obtain ⟨known, hget⟩ := Option.ne_none_iff_exists'.mp hknown
        have habove := Discover.buildGraph_fresh hbuilt node
          (Discover.mem_providerFactBatches hbatch hnode)
        have hbelow := le_maxNodeId hfiled hget
        rw [hid] at habove
        omega
      have hnamed : machineNamed next description.instanceId = some machine := okOr_ok.mp hfound
      obtain ⟨node, hnode, hkind, hattr⟩ := machineNamed_some hafter hnamed
      rw [hsame] at hnode
      exact machineNamed_ne_none hfiled hnode hkind hattr hnone

/-! The programs. -/

theorem markInventoryMismatch_moving (machine : NodeId) :
    Moving (Move own) (markInventoryMismatch machine) := by
  intro w
  unfold markInventoryMismatch
  exact follows_self (.ite (fun _ => commit_follows rfl _) fun _ => .pure ())

theorem orMismatch_moving {machine : NodeId} {program : ServiceM Unit}
    (h : Moving (Move own) program) : Moving (Move own) (orMismatch machine program) :=
  fun w => onRefusal_follows (h w) fun _ t _ => markInventoryMismatch_moving machine t

theorem check_moving {move : World → World → Prop} (result : Except Error α) :
    Moving move (check result) := fun _ => .still (after_check result)

theorem self_moving {move : World → World → Prop} : Moving move self := fun _ => .refl

theorem reconcileFactWriters_moving (machine : NodeId) (devices : List DeviceSpec) :
    Moving (Move own) (reconcileFactWriters machine devices) :=
  self_moving.bind fun _ => (check_moving _).bind fun _ =>
    .ite (commit_follows rfl) (.pure ())

theorem reconcileClaimContracts_moving (machine : NodeId) (devices : List DeviceSpec) :
    Moving (Move own) (reconcileClaimContracts machine devices) :=
  self_moving.bind fun _ => (check_moving _).bind fun _ =>
    .ite (commit_follows rfl) (.pure ())

theorem returnDevice_moving (node : NodeId) : Moving (Move own) (returnDevice node) := by
  unfold returnDevice
  refine self_moving.bind fun s => ?_
  extract_lets rest
  have hrest : ∀ done, Moving (Move own) (rest done) := fun _ =>
    self_moving.bind fun _ => .ite (commit_follows rfl) (.pure ())
  exact .ite ((commit_follows rfl).bind hrest) (hrest ())

theorem reconcileDeviceSubtree_moving (machine : NodeId) (devices : List DeviceSpec) :
    Moving (Move own) (reconcileDeviceSubtree machine devices) := by
  unfold reconcileDeviceSubtree
  refine self_moving.bind fun s => (check_moving _).bind fun plan => (check_moving _).bind fun missing => ?_
  extract_lets fresh claims disappeared rest
  have hrest : ∀ done, Moving (Move own) (rest done) := by
    intro done
    refine .bind (.forM fun _ _ => ?_) fun _ => self_moving.bind fun _ =>
      .bind (.forM fun _ _ => commit_follows rfl) fun _ => .forM fun node _ => returnDevice_moving node
    exact self_moving.bind fun _ => .ite (commit_follows rfl) (.pure ())
  exact .ite ((commit_follows rfl).bind hrest) (hrest ())

theorem returningMachine_moving (machine : NodeId) (description : MachineDescription) :
    Moving (Move own) (returningMachine machine description) := by
  unfold returningMachine
  refine .bind (orMismatch_moving (self_moving.bind fun _ => check_moving _)) fun _ =>
    .bind (orMismatch_moving (self_moving.bind fun _ => (check_moving _).bind fun _ => .pure ()))
      fun _ => .bind (orMismatch_moving (self_moving.bind fun _ => (check_moving _).bind fun _ =>
        .pure ())) fun _ => ?_
  exact .bind (orMismatch_moving (reconcileFactWriters_moving machine _)) fun _ =>
    .bind (orMismatch_moving (reconcileDeviceSubtree_moving machine _)) fun _ =>
      orMismatch_moving (reconcileClaimContracts_moving machine _)

theorem newMachine_moving (description : MachineDescription) :
    Moving (Move own) (newMachine description) := by
  intro w
  unfold newMachine
  refine follows_self ?_
  extract_lets base rest
  have hrest : ∀ facts, Follows (Move own) w (rest facts) := fun facts =>
    (commit_follows rfl w).bind fun _ t _ => follows_self (check_moving _ t)
  cases Discover.buildGraph description base with
  | none => exact .throw _
  | some facts => exact hrest facts

theorem requestEnumeration_moving (machine : NodeId) :
    Moving (Move own) (requestEnumeration machine) := by
  intro w
  unfold requestEnumeration
  refine follows_self ?_
  split
  · exact .pure ()
  · exact .ite (fun _ => dispatch_follows .enumerate) fun _ => .pure ()

theorem hello_follows {machine : NodeId} {session : UInt64}
    (h : own → w.service.recoveringMachines[machine]? = some (.new session) ∨
      machine ∉ w.service.cluster.sessions) :
    Follows (Move own) w (commit (.setAgentSession machine session)) := by
  unfold Follows
  cases happly : Cluster.apply (.setAgentSession machine session) w.service.cluster with
  | ok effects cluster =>
    rw [after_of_ok (commit_run_ok happly)]
    exact .single (.hello h happly)
  | error e left =>
    rw [after_of_error (commit_run_error happly)]
    exact .single (.refuse happly)

theorem commit_sessions {command : Command} {u : World} (hplain : isHello command = false)
    (hw : Grounded w) (h : after (commit command) w = u) :
    u.service.cluster.sessions = w.service.cluster.sessions := by
  subst h
  cases happly : Cluster.apply command w.service.cluster with
  | ok effects cluster =>
    rw [after_of_ok (commit_run_ok happly), service_commit]
    exact Cluster.sessions_of_apply hplain happly
  | error e left =>
    rw [after_of_error (commit_run_error happly)]
    exact congrArg Cluster.sessions (Cluster.Reachable.refused hw happly)

/-- The next session is announced over a blank recovery, or it is the first. -/
theorem beginSession_follows {machine : NodeId} {known : Bool} (hw : Grounded w)
    (hnew : known = false → machine ∉ w.service.cluster.sessions) :
    Follows (Move own) w (beginSession machine known) := by
  unfold beginSession
  refine follows_self ?_
  refine follows_update_bind (.session _) ?_
  split
  · rename_i hrecovering
    simp only [Bool.and_eq_true, decide_eq_true_eq] at hrecovering
    refine follows_observe_update (.recover _ hrecovering.2) ?_
    refine (hello_follows fun _ => .inl ?_).bind fun _ t _ => requestEnumeration_moving machine t
    simp [World.update]
  · rename_i hplain
    have hsessionless : machine ∉ w.service.cluster.sessions := by
      intro hmem
      cases known with
      | false => exact hnew rfl hmem
      | true => simp [hmem] at hplain
    split
    · have hafter : Grounded (after (commitLenient (.unquarantineNode machine))
          (w.update fun s => { s with state := { s.state with
            nextSession := w.service.state.nextSession + 1 } })) := by
        rw [after_commitLenient]
        exact commit_grounded hw
      refine (commitLenient_moving rfl _).bind fun _ t ht => ?_
      rw [after_of_ok ht] at hafter
      have hleft := after_of_ok ht
      rw [after_commitLenient] at hleft
      have hkept := commit_sessions rfl (by exact hw) hleft
      refine (commit_follows rfl t).bind fun _ u hu => ?_
      have hkept' := commit_sessions rfl hafter (after_of_ok hu)
      refine .bind (hello_follows fun _ => .inr ?_) fun _ _ _ => .pure ()
      rw [hkept', hkept]
      exact hsessionless
    · exact .bind (hello_follows fun _ => .inr hsessionless) fun _ _ _ => .pure ()

theorem registerAgentWithCapabilities_follows (description : MachineDescription)
    (capabilities : ExecutionCapabilities) :
    Guided Grounded (Move own) (registerAgentWithCapabilities description capabilities) := by
  intro w hw
  unfold registerAgentWithCapabilities
  refine (check_moving _ w).bind fun _ t ht => ?_
  obtain ⟨-, rfl⟩ := check_ok.mp ht
  refine follows_self ?_
  have hrest : ∀ machine known t, Grounded t → (known = false → machine ∉ t.service.cluster.sessions) →
      Follows (Move own) t (do
        update fun s => { s with
          executionCapabilities := s.executionCapabilities.insert machine capabilities
          agents := s.agents.insert machine true }
        beginSession machine known
        pump
        return machine) := by
    intro machine known t ht hnew
    refine follows_update_bind (.inert _ _ _ _ _ _) ?_
    refine (beginSession_follows ?_ ?_).bind fun _ u _ => (pump_moving u).bind fun _ _ _ => .pure _
    · exact ht
    · exact hnew
  cases hfound : machineNamed w.service.cluster description.instanceId with
  | some machine =>
    refine (returningMachine_moving machine description w).bind fun _ t ht => ?_
    exact hrest machine true t
      (Guided.ok_inv Move.grounded (@returningMachine_moving own machine description w) hw ht)
      (fun h => by cases h)
  | none =>
    refine (newMachine_moving description w).bind fun machine t ht => ?_
    exact hrest machine false t
      (Guided.ok_inv Move.grounded (@newMachine_moving own description w) hw ht)
      fun _ => newMachine_sessionless hw hfound ht

end Archon.Node.Service
