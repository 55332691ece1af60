import Archon.Kernel.Greedy

/-! Requests that cannot be refused. The search of a machine never ends in an
error, so a machine on which greedy selection cannot get stuck is not passed
over, and a request that is not confined to one needs only that of the graph. -/
namespace Archon.Kernel
open Fallible

namespace Select
open Archon.Kernel.Cluster

/-! The search of a machine ends without an error. -/

/-- The program succeeds from every state. -/
def Total {ε σ α : Type} (program : EStateM ε σ α) : Prop := ∀ s, Succeeds s program

section Total
variable {ε σ α β : Type}

theorem Total.bind {program : EStateM ε σ α} {next : α → EStateM ε σ β} (h : Total program)
    (hnext : ∀ a, Total (next a)) : Total (program >>= next) := by
  intro s
  obtain ⟨a, t, ha⟩ := h s
  obtain ⟨b, u, hb⟩ := hnext a t
  exact ⟨b, u, bind_ok.mpr ⟨a, t, ha, hb⟩⟩

theorem total_pure (a : α) : Total (pure a : EStateM ε σ α) := fun s => succeeds_pure s a

theorem total_get : Total (get : EStateM ε σ σ) := succeeds_get

theorem total_modify (f : σ → σ) : Total (modify f : EStateM ε σ Unit) := fun s => succeeds_modify s f

theorem total_ite {condition : Prop} [Decidable condition] {yes no : EStateM ε σ α}
    (hyes : condition → Total yes) (hno : ¬condition → Total no) :
    Total (if condition then yes else no) := by
  split
  · rename_i h
    exact hyes h
  · rename_i h
    exact hno h

theorem succeeds_bind {s t : σ} {a : α} {program : EStateM ε σ α} {next : α → EStateM ε σ β}
    (h : program s = .ok a t) (hnext : Succeeds t (next a)) : Succeeds s (program >>= next) := by
  obtain ⟨b, u, hb⟩ := hnext
  exact ⟨b, u, bind_ok.mpr ⟨a, t, h, hb⟩⟩

theorem total_attempt_bind {check : Except ε α} {a : α} (hcheck : check = .ok a)
    {next : α → EStateM ε σ β} (hnext : Total (next a)) : Total (attempt check >>= next) := by
  intro s
  obtain ⟨b, t, hb⟩ := hnext s
  exact ⟨b, t, bind_ok.mpr ⟨a, s, attempt_ok.mpr ⟨hcheck, rfl⟩, hb⟩⟩

end Total

namespace MachineSearch
variable {ctx : SelectCtx} {nodes : List NodeId} {index : Nat} {next : SearchM Bool}

theorem total_consume : Total consume :=
  total_get.bind fun _ => total_ite (fun _ => total_pure false)
    fun _ => (total_modify _).bind fun _ => total_pure true

theorem total_holdsTraced : Total (holdsTraced ctx) :=
  total_get.bind fun _ => (total_modify _).bind fun _ => total_pure _

theorem total_tryWhole {wanted : Quantity} {ranked : List NodeId}
    (hcover : ∀ node ∈ ranked, ∃ covered, ctx.occupancy.canCover ctx.graph ⟨node, wanted⟩ = .ok covered)
    (hnext : Total next) : Total (tryWhole ctx index wanted next ranked) := by
  induction ranked with
  | nil => exact total_pure false
  | cons node rest ih =>
    have hrest := ih fun other hother => hcover other (List.mem_cons_of_mem _ hother)
    obtain ⟨covered, hcovered⟩ := hcover node List.mem_cons_self
    rw [tryWhole]
    refine total_consume.bind fun budgeted => total_ite (fun _ => ?_) fun _ => total_pure false
    refine total_attempt_bind hcovered (total_ite (fun _ => ?_) fun _ => hrest)
    refine (total_modify _).bind fun _ => total_holdsTraced.bind fun holds => ?_
    have hdone : ∀ done : Bool, Total (if done then pure true else do
        pick index []
        tryWhole ctx index wanted next rest) :=
      fun done => total_ite (fun _ => total_pure true) fun _ => (total_modify _).bind fun _ => hrest
    exact total_ite (fun _ => hnext.bind hdone) fun _ => (total_pure false).bind hdone

theorem total_group {count : UInt64} {ranked : List NodeId}
    (hcover : ∀ node ∈ ranked, ∃ covered,
      ctx.occupancy.canCover ctx.graph ⟨node, qty .count 1⟩ = .ok covered)
    (hnext : Total next) (chosen : List Claim) : Total (group ctx index count next chosen ranked) := by
  induction ranked generalizing chosen with
  | nil =>
    rw [group]
    exact total_ite (fun _ => hnext) fun _ => total_pure false
  | cons node rest ih =>
    have hrest := ih fun other hother => hcover other (List.mem_cons_of_mem _ hother)
    obtain ⟨covered, hcovered⟩ := hcover node List.mem_cons_self
    rw [group]
    refine total_ite (fun _ => hnext) fun _ => ?_
    refine total_consume.bind fun budgeted => total_ite (fun _ => ?_) fun _ => total_pure false
    refine total_attempt_bind hcovered (total_ite (fun _ => ?_) fun _ => hrest chosen)
    refine (total_modify _).bind fun _ => total_holdsTraced.bind fun holds => ?_
    have hdone : ∀ done : Bool, Total (if done then pure true else do
        pick index chosen
        group ctx index count next chosen rest) :=
      fun done => total_ite (fun _ => total_pure true) fun _ => (total_modify _).bind fun _ => hrest chosen
    exact total_ite (fun _ => (hrest _).bind hdone) fun _ => (total_pure false).bind hdone

theorem total_needs {needs : List Need} (hcandidates : ∀ need ∈ needs, ∃ found,
      candidates ctx.graph ctx.occupancy need ctx.quarantine = .ok found) :
    Total (MachineSearch.needs ctx nodes index needs) := by
  induction needs generalizing index with
  | nil => exact total_holdsTraced
  | cons need rest ih =>
    have hrest := fun index => @ih index fun other hother => hcandidates other (List.mem_cons_of_mem _ hother)
    obtain ⟨found, hfound⟩ := hcandidates need List.mem_cons_self
    have hcandidate := candidate_known hfound
    rw [MachineSearch.needs]
    refine total_get.bind fun search => total_attempt_bind hfound (total_ite (fun _ => total_pure false) ?_)
    intro _
    have hknown : ∀ node ∈ found.filter (fun node => node ∈ nodes), ctx.graph.node node ≠ none :=
      fun node hnode => (hcandidate node (List.mem_filter.mp hnode).1).1
    obtain ⟨ranked, hranked⟩ := @rank_known
      { ctx.score search.picked (quantityGet (consumableQuantity need) .bytes) with
        mode := packMode ctx.request } _ hknown
    have hcover : ∀ node ∈ ranked,
        ctx.occupancy.canCover ctx.graph ⟨node, needUnit need⟩ = .ok true := by
      intro node hnode
      exact (hcandidate node (List.mem_filter.mp ((mem_rank hranked).mp hnode)).1).2.1
    refine total_attempt_bind hranked (total_ite (fun hconsumable => ?_) fun hconsumable => ?_)
    · refine total_tryWhole (fun node hnode => ⟨true, ?_⟩) (hrest _)
      rw [← hcover node hnode, needUnit, if_pos hconsumable]
    · refine total_group (fun node hnode => ⟨true, ?_⟩) (hrest _) []
      rw [← hcover node hnode, needUnit, if_neg hconsumable]

end MachineSearch

/-! Requests. -/

section Requests
variable {ctx : SelectCtx}

theorem forall₂_mem_right {α β : Type} {rel : α → β → Prop} {as : List α} {bs : List β}
    (h : List.Forall₂ rel as bs) {b : β} (hb : b ∈ bs) : ∃ a ∈ as, rel a b := by
  induction h with
  | nil => cases hb
  | cons hhead _ ih =>
    rcases List.mem_cons.mp hb with rfl | hb
    · exact ⟨_, List.mem_cons_self, hhead⟩
    · obtain ⟨a, ha, hrel⟩ := ih hb
      exact ⟨a, List.mem_cons_of_mem _ ha, hrel⟩

theorem forall₂_mem_left {α β : Type} {rel : α → β → Prop} {as : List α} {bs : List β}
    (h : List.Forall₂ rel as bs) {a : α} (ha : a ∈ as) : ∃ b ∈ bs, rel a b :=
  forall₂_mem_right (List.Forall₂.flip h) ha

theorem known_of_serves {allowed : Option (List NodeId)} {needs : List Need} {picked : List (List Claim)}
    (h : List.Forall₂ (Serves ctx allowed) needs picked) :
    ∀ group ∈ picked, ∀ claim ∈ group, ctx.graph.node claim.node ≠ none := by
  intro group hgroup claim hclaim
  obtain ⟨need, -, hserves⟩ := forall₂_mem_right h hgroup
  obtain ⟨found, hfound, hmem⟩ := hserves.candidate claim hclaim
  exact (candidate_known hfound claim.node hmem).1

theorem total_grantOnMachine (machine : NodeId) {picked : List (List Claim)} (notes : List String)
    (hknown : ∀ group ∈ picked, ∀ claim ∈ group, ctx.graph.node claim.node ≠ none) :
    Total (grantOnMachine ctx machine picked notes) := by
  rw [grantOnMachine]
  refine total_get.bind fun trace => ?_
  obtain ⟨reasons, hreasons⟩ := @placementReasons_ok ctx picked trace hknown
  exact total_attempt_bind hreasons (total_pure _)

theorem total_searchMachine (hcandidates : ∀ need ∈ ctx.request.needs, ∃ found,
      candidates ctx.graph ctx.occupancy need ctx.quarantine = .ok found) (nodes : List NodeId) :
    Total (searchMachine ctx nodes) := by
  intro trace
  obtain ⟨found, search, hsearch⟩ := @MachineSearch.total_needs ctx nodes 0 _ hcandidates
    ⟨trace, MachineSearch.fallbackSearchBudget, ctx.request.needs.map fun _ => []⟩
  simp only [Succeeds, searchMachine, hsearch]
  cases found <;> exact ⟨_, _, rfl⟩

/-- What is granted across machines is what greedy selection picked. -/
theorem reaches_selectAcross (h : NeverStuck ctx none) (trace : TopologyTrace) :
    Reaches trace (selectAcross ctx) fun allocation _ => ∃ picked, allocation.claims = picked.flatten ∧
      List.Forall₂ (Takes ctx none) ctx.request.needs picked ∧
      topologyHolds ctx.graph picked ctx.request := by
  unfold selectAcross
  refine reaches_bind (@reaches_selectNeeds ctx _ h [] _ rfl [] .nil topologyHolds_nil [] trace) ?_
  rintro ⟨picked, notes⟩ t ⟨htakes, hholds⟩
  obtain ⟨reasons, hreasons⟩ := @placementReasons_ok ctx picked t
    (known_of_serves (htakes.imp fun _ _ h => h.serves))
  simp only [reaches_attempt_bind, reaches_get_bind, reaches_pure]
  refine ⟨(), ?_, reasons, hreasons, picked, rfl, htakes, hholds⟩
  rw [refuseIf_ok, not_not]
  exact hholds

/-- Greedy selection completes below the machine, or else a search finds a selection there. -/
def NotPassedOver (ctx : SelectCtx) (machine : NodeId) : Prop :=
  (∀ trace, Reaches trace (selectNeeds ctx (some (machine :: ctx.graph.descendants machine)) [] []
    ctx.request.needs) fun found _ => topologyHolds ctx.graph found.1 ctx.request) ∨
  ctx.request.topology ≠ [] ∧ ∀ trace, Reaches trace
    (searchMachine ctx (machine :: ctx.graph.descendants machine)) fun found _ => found.isSome

theorem NeverStuck.notPassedOver {machine : NodeId}
    (h : NeverStuck ctx (some (machine :: ctx.graph.descendants machine))) :
    NotPassedOver ctx machine := by
  refine .inl fun trace => ?_
  obtain ⟨found, t, hrun, -, hholds⟩ := @reaches_selectNeeds ctx _ h [] _ rfl [] .nil topologyHolds_nil
    [] trace
  exact ⟨found, t, hrun, hholds⟩

/-- A machine that is not passed over is enough. -/
theorem succeeds_selectOneMachine (hcandidates : ∀ need ∈ ctx.request.needs, ∃ found,
      candidates ctx.graph ctx.occupancy need ctx.quarantine = .ok found) {machines : List NodeId}
    (hmachine : ∃ machine ∈ machines, isBlocked ctx.graph ctx.quarantine machine = false ∧
      NotPassedOver ctx machine) (trace : TopologyTrace) :
    Succeeds trace (selectOneMachine ctx machines) := by
  induction machines generalizing trace with
  | nil =>
    obtain ⟨_, hnone, -⟩ := hmachine
    cases hnone
  | cons machine rest ih =>
    rw [selectOneMachine]
    obtain ⟨chosen, hchosen, hclear, hkept⟩ := hmachine
    split
    · rename_i hblocked
      refine ih ⟨chosen, ?_, hclear, hkept⟩ trace
      rcases List.mem_cons.mp hchosen with rfl | hrest
      · rw [hclear] at hblocked
        cases hblocked
      · exact hrest
    rename_i hopen
    have hlater : machine ≠ chosen → ∃ other ∈ rest,
        isBlocked ctx.graph ctx.quarantine other = false ∧ NotPassedOver ctx other := by
      intro hne
      rcases List.mem_cons.mp hchosen with heq | hrest
      · exact absurd heq.symm hne
      · exact ⟨chosen, hrest, hclear, hkept⟩
    obtain ⟨greedy, t, hobserved⟩ : Succeeds trace (observe (selectNeeds ctx
        (some (machine :: ctx.graph.descendants machine)) [] [] ctx.request.needs)) := by
      unfold Succeeds observe
      split <;> exact ⟨_, _, rfl⟩
    have hknown : ∀ found, greedy = some found → ∀ group ∈ found.1, ∀ claim ∈ group,
        ctx.graph.node claim.node ≠ none := by
      intro found hfound
      subst hfound
      rcases observe_ok.mp hobserved with ⟨_, ⟨⟩, hrun⟩ | ⟨hnone, -⟩
      · exact known_of_serves ((yields_selectNeeds_takes _ [] _ _ _ .nil found t hrun).imp
          fun _ _ h => h.serves)
      · cases hnone
    refine succeeds_bind hobserved ?_
    split
    · rename_i picked notes hfiltered
      exact total_grantOnMachine machine notes (hknown _ (Option.filter_eq_some_iff.mp hfiltered).1) t
    · rename_i hnone
      -- greedy selection failed here, so only a search may have been promised
      have hsearch : machine = chosen → ctx.request.topology ≠ [] ∧ ∀ trace, Reaches trace
          (searchMachine ctx (machine :: ctx.graph.descendants machine)) fun found _ => found.isSome := by
        rintro rfl
        refine hkept.resolve_left fun hcompletes => ?_
        obtain ⟨found, u, hrun, hholds⟩ := hcompletes trace
        rcases observe_ok.mp hobserved with ⟨found', rfl, hrun'⟩ | ⟨-, e, herror⟩
        · rw [hrun] at hrun'
          cases hrun'
          simp [hholds] at hnone
        · rw [hrun] at herror
          cases herror
      split
      · rename_i hfree
        exact ih (hlater fun heq => (hsearch heq).1 (by simpa using hfree)) t
      · obtain ⟨searched, u, hsearched⟩ := total_searchMachine hcandidates
          (machine :: ctx.graph.descendants machine) t
        refine succeeds_bind hsearched ?_
        cases searched with
        | none =>
          refine ih (hlater fun heq => ?_) u
          obtain ⟨found, v, hfound, hsome⟩ := (hsearch heq).2 t
          rw [hsearched] at hfound
          cases hfound
          cases hsome
        | some picked =>
          have hfound := known_of_serves (yields_searchMachine_serves _ t _ u hsearched picked rfl)
          obtain ⟨notes, hnotes⟩ := selectionNotes_ok hfound
          exact total_attempt_bind hnotes (total_grantOnMachine machine notes hfound) u

end Requests

end Select

section Select
open Select
variable {graph : Graph} {occupancy : Occupancy} {request : Request} {quarantine : List NodeId}

/-- Greedy selection cannot get stuck where the request is placed: on the whole
graph, or on one of the machines it may be confined to. -/
def Unfailing (graph : Graph) (occupancy : Occupancy) (request : Request) (quarantine : List NodeId) :
    Prop :=
  if request.machineLocal ∧ 1 < request.needs.length then
    ∃ machine ∈ graph.nodesOfClass .machine, isBlocked graph quarantine machine = false ∧
      NeverStuck ⟨graph, occupancy, request, packMode request, quarantine⟩
        (some (machine :: graph.descendants machine))
  else NeverStuck ⟨graph, occupancy, request, packMode request, quarantine⟩ none

/-- A group is never empty. -/
theorem Select.Serves.claim {ctx : SelectCtx} {allowed : Option (List NodeId)} {need : Need}
    {group : List Claim} (h : Serves ctx allowed need group) : ∃ claim, claim ∈ group := by
  by_cases hconsumable : isConsumableNeed need
  · obtain ⟨node, rfl⟩ := h.whole hconsumable
    exact ⟨_, List.mem_singleton_self _⟩
  · obtain ⟨hlength, -⟩ := h.units (by simpa using hconsumable)
    have hcount := MachineSearch.one_le_unitCount need
    exact List.exists_mem_of_length_pos (by omega)

/-- Where greedy selection cannot get stuck, every need has candidates. -/
theorem candidates_of_neverStuck {ctx : SelectCtx} {allowed : Option (List NodeId)}
    (h : NeverStuck ctx allowed) : ∀ need ∈ ctx.request.needs, ∃ found,
      candidates ctx.graph ctx.occupancy need ctx.quarantine = .ok found := by
  intro need hneed
  obtain ⟨result, t, -, htakes, -⟩ := @reaches_selectNeeds ctx _ h [] _ rfl [] .nil topologyHolds_nil []
    ⟨∅⟩
  obtain ⟨group, -, htake⟩ := forall₂_mem_left htakes hneed
  obtain ⟨claim, hclaim⟩ := htake.serves.claim
  obtain ⟨found, hfound, -⟩ := htake.serves.candidate claim hclaim
  exact ⟨found, hfound⟩

theorem names_accepted {error : Error} (hnames : ∀ constraint ∈ request.topology,
      constraint.left < request.needs.length ∧ constraint.right < request.needs.length) :
    refuseIf (request.topology.any fun constraint =>
      request.needs.length ≤ constraint.left || request.needs.length ≤ constraint.right) error =
        .ok () := by
  simp only [refuseIf_ok, List.any_eq_true, Bool.or_eq_true, decide_eq_true_eq, not_exists, not_and]
  intro constraint hconstraint
  have := hnames constraint hconstraint
  omega

/-- A local request with several needs is granted where a machine is not passed over. -/
theorem select_of_notPassedOver (hlocal : request.machineLocal ∧ 1 < request.needs.length)
    (hcandidates : ∀ need ∈ request.needs, ∃ found,
      candidates graph occupancy need quarantine = .ok found)
    (hmachine : ∃ machine ∈ graph.nodesOfClass .machine, isBlocked graph quarantine machine = false ∧
      NotPassedOver ⟨graph, occupancy, request, packMode request, quarantine⟩ machine)
    (hnames : ∀ constraint ∈ request.topology, constraint.left < request.needs.length ∧
      constraint.right < request.needs.length) :
    ∃ allocation, select graph occupancy request quarantine = .ok allocation := by
  obtain ⟨allocation, t, hselect⟩ := @succeeds_selectOneMachine
    ⟨graph, occupancy, request, packMode request, quarantine⟩ hcandidates _ hmachine ⟨∅⟩
  simp only [select, check_bind_ok]
  refine ⟨allocation, (), names_accepted hnames, ?_⟩
  rw [if_pos (by simpa using hlocal)]
  exact conclude_ok.mpr ⟨t, hselect⟩

/-- A request on which greedy selection cannot get stuck is granted, whatever its
preferences and its data. -/
theorem select_of_unfailing (h : Unfailing graph occupancy request quarantine)
    (hnames : ∀ constraint ∈ request.topology, constraint.left < request.needs.length ∧
      constraint.right < request.needs.length) :
    ∃ allocation, select graph occupancy request quarantine = .ok allocation := by
  unfold Unfailing at h
  by_cases hlocal : request.machineLocal ∧ 1 < request.needs.length
  · rw [if_pos hlocal] at h
    obtain ⟨machine, hmachine, hclear, hstuck⟩ := h
    exact select_of_notPassedOver hlocal (candidates_of_neverStuck hstuck)
      ⟨machine, hmachine, hclear, hstuck.notPassedOver⟩ hnames
  · rw [if_neg hlocal] at h
    obtain ⟨allocation, u, hacross, -⟩ := reaches_selectAcross h ⟨∅⟩
    simp only [select, check_bind_ok]
    refine ⟨allocation, (), names_accepted hnames, ?_⟩
    rw [if_neg (by simpa using hlocal)]
    exact conclude_ok.mpr ⟨u, hacross⟩

end Select
end Archon.Kernel
