import Archon.Kernel.Select

/-! What placement grants. Whatever path a grant took, greedy, spread or searched,
each of its claims is on a candidate of some need, for the quantity that need
asks of one node, and no node is claimed twice. -/
namespace Archon.Kernel
open Fallible

namespace Select

variable {ctx : SelectCtx} {need : Need}

/-- The claim serves some need on one of its candidates. -/
def Granted (ctx : SelectCtx) (claim : Claim) : Prop :=
  ∃ need found, candidates ctx.graph ctx.occupancy need ctx.quarantine = .ok found ∧
    claim.node ∈ found ∧ claim.quantity = needUnit need

/-- Every claim picked so far is granted. -/
def AllGranted (ctx : SelectCtx) (picked : List (List Claim)) : Prop :=
  ∀ group ∈ picked, ∀ claim ∈ group, Granted ctx claim

theorem allGranted_nil : AllGranted ctx [] := by
  simp [AllGranted]

theorem AllGranted.concat {picked : List (List Claim)} {claims : List Claim}
    (h : AllGranted ctx picked) (hclaims : ∀ claim ∈ claims, Granted ctx claim) :
    AllGranted ctx (picked ++ [claims]) := by
  intro group hgroup
  rcases List.mem_append.mp hgroup with hgroup | hgroup
  · exact h group hgroup
  · rw [List.mem_singleton.mp hgroup]
    exact hclaims

theorem AllGranted.set {picked : List (List Claim)} {claims : List Claim} {index : Nat}
    (h : AllGranted ctx picked) (hclaims : ∀ claim ∈ claims, Granted ctx claim) :
    AllGranted ctx (picked.set index claims) := by
  intro group hgroup
  rcases List.mem_or_eq_of_mem_set hgroup with hgroup | rfl
  · exact h group hgroup
  · exact hclaims

theorem AllGranted.flatten {picked : List (List Claim)} (h : AllGranted ctx picked) :
    ∀ claim ∈ picked.flatten, Granted ctx claim := by
  intro claim hclaim
  obtain ⟨group, hgroup, hclaim⟩ := List.mem_flatten.mp hclaim
  exact h group hgroup claim hclaim

/-! Ranking keeps the candidates. -/

theorem mem_rank {scoring : ScoreCtx} {chosen : List Claim} {found ranked : List NodeId}
    (h : rank scoring chosen found = .ok ranked) {node : NodeId} : node ∈ ranked ↔ node ∈ found := by
  simp only [rank, check_bind_ok, check_pure_ok] at h
  obtain ⟨scored, hscored, rfl⟩ := h
  have hnodes : scored.map Prod.snd = found := by
    rw [mapM_ok] at hscored
    induction hscored with
    | nil => rfl
    | cons hhead _ ih =>
      simp only [check_bind_ok, check_pure_ok] at hhead
      obtain ⟨score, -, rfl⟩ := hhead
      rw [List.map_cons, ih]
  rw [← hnodes, List.mem_map, List.mem_map]
  simp only [List.mem_insertionSort]

/-! Greedy selection. -/

theorem yields_takeWhole (scoring : ScoreCtx) (wanted : Quantity) (ranked : List NodeId)
    (trace : TopologyTrace) :
    Yields trace (takeWhole scoring wanted ranked) fun result _ =>
      ∀ taken, result = some taken →
        ∀ claim ∈ taken.1, claim.node ∈ ranked ∧ claim.quantity = wanted := by
  induction ranked generalizing trace with
  | nil => simp [takeWhole]
  | cons node rest ih =>
    have hlater : ∀ trace, Yields trace (takeWhole scoring wanted rest) fun result _ =>
        ∀ taken, result = some taken →
          ∀ claim ∈ taken.1, claim.node ∈ node :: rest ∧ claim.quantity = wanted := by
      intro trace result t hresult taken htaken claim hclaim
      obtain ⟨hmem, hquantity⟩ := ih trace result t hresult taken htaken claim hclaim
      exact ⟨List.mem_cons_of_mem _ hmem, hquantity⟩
    simp only [takeWhole, topologyHoldsTraced, bind_assoc, pure_bind, yields_attempt_bind, yields_ite,
      yields_modify_bind, yields_pure]
    intro covered _
    refine ⟨fun _ => ⟨fun _ score _ => ?_, fun _ => hlater _⟩, fun _ => hlater _⟩
    simp

theorem yields_takeUnits (scoring : ScoreCtx) (count : UInt64) (ranked : List NodeId)
    (chosen : List Claim) (notes : List String) (trace : TopologyTrace) :
    Yields trace (takeUnits scoring count chosen notes ranked) fun taken _ =>
      ∀ claim ∈ taken.1, claim ∈ chosen ∨ claim.node ∈ ranked ∧ claim.quantity = qty .count 1 := by
  induction ranked generalizing chosen notes trace with
  | nil =>
    simp only [takeUnits, yields_pure]
    exact fun _ hclaim => .inl hclaim
  | cons node rest ih =>
    simp only [takeUnits, topologyHoldsTraced, bind_assoc, pure_bind, yields_ite, yields_pure,
      yields_modify_bind, yields_attempt_bind]
    refine ⟨fun _ _ hclaim => .inl hclaim, fun _ => ⟨fun _ score _ => ?_, fun _ => ?_⟩⟩
    · intro taken t htaken claim hclaim
      rcases ih _ _ _ taken t htaken claim hclaim with hchosen | ⟨hmem, hquantity⟩
      · rcases List.mem_append.mp hchosen with hchosen | hnew
        · exact .inl hchosen
        · rw [List.mem_singleton.mp hnew]
          exact .inr ⟨List.mem_cons_self, rfl⟩
      · exact .inr ⟨List.mem_cons_of_mem _ hmem, hquantity⟩
    · intro taken t htaken claim hclaim
      rcases ih _ _ _ taken t htaken claim hclaim with hchosen | ⟨hmem, hquantity⟩
      · exact .inl hchosen
      · exact .inr ⟨List.mem_cons_of_mem _ hmem, hquantity⟩

theorem yields_takeOnMachine (scoring : ScoreCtx) (count : UInt64) (ranked machines : List NodeId)
    (trace : TopologyTrace) :
    Yields trace (takeOnMachine scoring count ranked machines) fun result _ =>
      ∀ taken, result = some taken →
        ∀ claim ∈ taken.1, claim.node ∈ ranked ∧ claim.quantity = qty .count 1 := by
  induction machines generalizing trace with
  | nil => simp [takeOnMachine]
  | cons machine rest ih =>
    rw [takeOnMachine]
    refine yields_bind (yields_takeUnits _ _ _ _ _ _) fun taken t htaken => ?_
    simp only [yields_ite, yields_pure]
    refine ⟨?_, fun _ => ih t⟩
    rintro _ _ ⟨⟩ claim hclaim
    rcases htaken claim hclaim with hnone | ⟨hmem, hquantity⟩
    · cases hnone
    · exact ⟨(List.mem_filter.mp hmem).1, hquantity⟩

theorem yields_selectSpread (scoring : ScoreCtx) (need : Need) (found : List NodeId) (count : UInt64)
    (trace : TopologyTrace) :
    Yields trace (selectSpread scoring need found count) fun taken _ =>
      ∀ claim ∈ taken.1, claim.node ∈ found ∧ claim.quantity = qty .count 1 := by
  simp only [selectSpread, yields_attempt_bind]
  intro ranked hranked
  refine yields_bind (yields_takeUnits _ _ _ _ _ _) fun taken t htaken => ?_
  simp only [yields_attempt_bind, yields_pure]
  intro _ _ claim hclaim
  rcases htaken claim hclaim with hnone | ⟨hmem, hquantity⟩
  · cases hnone
  · exact ⟨(mem_rank hranked).mp hmem, hquantity⟩

theorem yields_selectNeedIn (need : Need) (already : List (List Claim))
    (allowed : Option (List NodeId)) (trace : TopologyTrace) :
    Yields trace (selectNeedIn ctx need already allowed) fun taken _ =>
      ∀ claim ∈ taken.1, Granted ctx claim := by
  unfold selectNeedIn
  simp only [yields_attempt_bind, yields_ite]
  intro found hfound _ _
  have hgranted : ∀ claim : Claim,
      claim.node ∈ found.filter (fun node => allowed.all fun nodes => node ∈ nodes) →
      claim.quantity = needUnit need → Granted ctx claim :=
    fun claim hmem hquantity => ⟨need, found, hfound, (List.mem_filter.mp hmem).1, hquantity⟩
  constructor
  · intro hconsumable _ _ ranked hranked
    refine yields_bind (yields_takeWhole _ _ _ _) fun taken t htaken result u hresult claim hclaim => ?_
    simp only [attempt_ok, okOr_ok] at hresult
    obtain ⟨hmem, hquantity⟩ := htaken _ hresult.1 claim hclaim
    refine hgranted claim ((mem_rank hranked).mp hmem) ?_
    rw [hquantity, needUnit, if_pos hconsumable]
  · intro hcountable
    have hunit : needUnit need = qty .count 1 := if_neg hcountable
    refine ⟨fun _ ranked hranked => ?_, fun _ => ?_⟩
    · refine yields_bind (yields_takeOnMachine _ _ _ _ _)
        fun taken t htaken result u hresult claim hclaim => ?_
      simp only [attempt_ok, okOr_ok] at hresult
      obtain ⟨hmem, hquantity⟩ := htaken _ hresult.1 claim hclaim
      exact hgranted claim ((mem_rank hranked).mp hmem) (hquantity.trans hunit.symm)
    · intro taken t htaken claim hclaim
      obtain ⟨hmem, hquantity⟩ := yields_selectSpread _ _ _ _ _ taken t htaken claim hclaim
      exact hgranted claim hmem (hquantity.trans hunit.symm)

theorem yields_selectNeeds (allowed : Option (List NodeId)) (needs : List Need)
    (picked : List (List Claim)) (notes : List String) (trace : TopologyTrace)
    (h : AllGranted ctx picked) :
    Yields trace (selectNeeds ctx allowed picked notes needs) fun result _ =>
      AllGranted ctx result.1 := by
  induction needs generalizing picked notes trace with
  | nil => simpa [selectNeeds] using h
  | cons need rest ih =>
    rw [selectNeeds]
    exact yields_bind (yields_selectNeedIn _ _ _ _) fun taken t htaken => ih _ _ t (h.concat htaken)

/-- What an allocation of the context's request promises. -/
structure Sound (ctx : SelectCtx) (allocation : Allocation) : Prop where
  revision : allocation.graphRevision = ctx.graph.revision
  distinct : DistinctNodes allocation.claims
  granted : ∀ claim ∈ allocation.claims, Granted ctx claim

theorem topologyHolds_distinct {picked : List (List Claim)}
    (h : topologyHolds ctx.graph picked ctx.request) : DistinctNodes picked.flatten := by
  simp only [topologyHolds, claimsAreUnique, Bool.and_eq_true, decide_eq_true_eq] at h
  exact h.1

theorem yields_selectAcross (trace : TopologyTrace) :
    Yields trace (selectAcross ctx) fun allocation _ => Sound ctx allocation := by
  unfold selectAcross
  refine yields_bind (yields_selectNeeds _ _ _ _ _ allGranted_nil) fun result t hgranted => ?_
  simp only [yields_attempt_bind, refuseIf_ok, not_not, yields_get_bind, yields_pure]
  intro _ hholds reasons _
  exact ⟨rfl, topologyHolds_distinct hholds, hgranted.flatten⟩

/-! Search. -/

namespace MachineSearch

/-- The search keeps its picks granted, and reports success only on picks that
hold up together. -/
def Sound (ctx : SelectCtx) (done : Bool) (search : MachineSearch) : Prop :=
  AllGranted ctx search.picked ∧
    (done = true → topologyHolds ctx.graph search.picked ctx.request = true)

/-- A stage of the search that keeps granted picks granted. -/
def Searches (ctx : SelectCtx) (stage : SearchM Bool) : Prop :=
  ∀ search, AllGranted ctx search.picked → Yields search stage (Sound ctx)

theorem searches_false : Searches ctx (pure false) := by
  intro search h
  simp only [yields_pure]
  exact ⟨h, fun hfalse => absurd hfalse (by simp)⟩

theorem searches_true_of {search : MachineSearch} (h : Sound ctx true search) :
    Yields search (pure true : SearchM Bool) (Sound ctx) := by
  simpa only [yields_pure] using h

theorem searches_holdsTraced : Searches ctx (holdsTraced ctx) := by
  intro search h
  simp only [holdsTraced, yields_get_bind, yields_modify_bind, yields_pure]
  exact ⟨h, fun hholds => hholds⟩

theorem yields_consume {search : MachineSearch} (h : AllGranted ctx search.picked) :
    Yields search consume fun _ after => AllGranted ctx after.picked := by
  simp only [consume, yields_get_bind, yields_ite, yields_pure, yields_modify_bind]
  exact ⟨fun _ => h, fun _ => h⟩

/-- Pick claims, and if they hold up go on; a failure undoes the pick. -/
theorem searches_pick {index : Nat} {claims undo : List Claim} {next other : SearchM Bool}
    (hclaims : ∀ claim ∈ claims, Granted ctx claim) (hundo : ∀ claim ∈ undo, Granted ctx claim)
    (hnext : Searches ctx next) (hother : Searches ctx other) :
    Searches ctx (do
      pick index claims
      let holds ← holdsTraced ctx
      let done ← if holds then next else pure false
      if done then
        return true
      else do
        pick index undo
        other) := by
  have hrest : ∀ done after, Sound ctx done after → Yields after (do
      if done then
        return true
      else do
        pick index undo
        other) (Sound ctx) := by
    intro done after hafter
    simp only [pick, yields_ite, yields_modify_bind]
    refine ⟨fun hdone => searches_true_of ⟨hafter.1, fun _ => hafter.2 hdone⟩, fun _ => ?_⟩
    exact hother _ (hafter.1.set hundo)
  intro search h
  simp only [pick, yields_modify_bind]
  refine yields_bind (searches_holdsTraced _ (h.set hclaims)) fun holds traced htraced => ?_
  rw [yields_ite]
  refine ⟨fun _ => yields_bind (hnext _ htraced.1) hrest, fun _ => ?_⟩
  exact yields_bind (searches_false _ htraced.1) hrest

/-- One budgeted try of a node: an unaffordable or uncovered one is passed over. -/
theorem searches_budgeted {check : Except Error Bool} {body other : SearchM Bool}
    (htry : Searches ctx body) (hother : Searches ctx other) :
    Searches ctx (do
      let budgeted ← consume
      if budgeted then
        let covered ← attempt check
        if covered then body else other
      else
        return false) := by
  intro search h
  refine yields_bind (yields_consume h) fun budgeted after hafter => ?_
  simp only [yields_ite, yields_attempt_bind]
  refine ⟨fun _ covered _ => ⟨fun _ => htry after hafter, fun _ => hother after hafter⟩, fun _ => ?_⟩
  exact searches_false after hafter

theorem searches_tryWhole {index : Nat} {wanted : Quantity} {next : SearchM Bool}
    {ranked : List NodeId} (hranked : ∀ node ∈ ranked, Granted ctx ⟨node, wanted⟩)
    (hnext : Searches ctx next) : Searches ctx (tryWhole ctx index wanted next ranked) := by
  induction ranked with
  | nil => exact searches_false
  | cons node rest ih =>
    have hrest := ih fun other hother => hranked other (List.mem_cons_of_mem _ hother)
    refine searches_budgeted (searches_pick ?_ (by simp) hnext hrest) hrest
    simpa using hranked node List.mem_cons_self

theorem searches_group {index : Nat} {count : UInt64} {next : SearchM Bool} {ranked : List NodeId}
    {chosen : List Claim} (hranked : ∀ node ∈ ranked, Granted ctx ⟨node, qty .count 1⟩)
    (hchosen : ∀ claim ∈ chosen, Granted ctx claim) (hnext : Searches ctx next) :
    Searches ctx (group ctx index count next chosen ranked) := by
  induction ranked generalizing chosen with
  | nil =>
    intro search h
    simp only [group, yields_ite]
    exact ⟨fun _ => hnext search h, fun _ => searches_false search h⟩
  | cons node rest ih =>
    have hrest : ∀ other ∈ rest, Granted ctx ⟨other, qty .count 1⟩ :=
      fun other hother => hranked other (List.mem_cons_of_mem _ hother)
    have hmore : ∀ claim ∈ chosen ++ [⟨node, qty .count 1⟩], Granted ctx claim := by
      intro claim hclaim
      rcases List.mem_append.mp hclaim with hclaim | hclaim
      · exact hchosen claim hclaim
      · rw [List.mem_singleton.mp hclaim]
        exact hranked node List.mem_cons_self
    intro search h
    rw [group, yields_ite]
    refine ⟨fun _ => hnext search h, fun _ => ?_⟩
    exact searches_budgeted (searches_pick hmore hchosen (ih hrest hmore) (ih hrest hchosen))
      (ih hrest hchosen) search h

theorem searches_needs (allowed : List NodeId) (index : Nat) (needs : List Need) :
    Searches ctx (MachineSearch.needs ctx allowed index needs) := by
  induction needs generalizing index with
  | nil => exact searches_holdsTraced
  | cons need rest ih =>
    intro search h
    simp only [MachineSearch.needs, yields_get_bind, yields_attempt_bind, yields_ite]
    intro found hfound
    refine ⟨fun _ => searches_false search h, fun _ ranked hranked => ?_⟩
    have hgranted : ∀ node ∈ ranked, Granted ctx ⟨node, needUnit need⟩ := by
      intro node hnode
      exact ⟨need, found, hfound, (List.mem_filter.mp ((mem_rank hranked).mp hnode)).1, rfl⟩
    refine ⟨fun hconsumable => ?_, fun hcountable => ?_⟩
    · rw [needUnit, if_pos hconsumable] at hgranted
      exact searches_tryWhole hgranted (ih _) search h
    · rw [needUnit, if_neg hcountable] at hgranted
      exact searches_group hgranted (by simp) (ih _) search h

end MachineSearch

theorem yields_searchMachine (allowed : List NodeId) (trace : TopologyTrace) :
    Yields trace (searchMachine ctx allowed) fun result _ => ∀ picked, result = some picked →
      AllGranted ctx picked ∧ topologyHolds ctx.graph picked ctx.request = true := by
  intro result t hresult picked hpicked
  subst hpicked
  have hstart : AllGranted ctx (ctx.request.needs.map fun _ => []) := by
    simp [AllGranted]
  have hfound := @MachineSearch.searches_needs ctx allowed 0 ctx.request.needs
    ⟨trace, MachineSearch.fallbackSearchBudget, ctx.request.needs.map fun _ => []⟩ hstart
  unfold searchMachine at hresult
  dsimp only at hresult
  split at hresult
  · rename_i search hsearch
    obtain ⟨hgranted, hholds⟩ := hfound true search hsearch
    cases hresult
    exact ⟨hgranted, hholds rfl⟩
  · cases hresult
  · cases hresult

/-! Whole allocations. -/

theorem yields_grantOnMachine (machine : NodeId) {picked : List (List Claim)} (notes : List String)
    (trace : TopologyTrace) (hgranted : AllGranted ctx picked)
    (hholds : topologyHolds ctx.graph picked ctx.request) :
    Yields trace (grantOnMachine ctx machine picked notes) fun allocation _ =>
      Sound ctx allocation := by
  simp only [grantOnMachine, yields_get_bind, yields_attempt_bind, yields_pure]
  exact fun _ _ => ⟨rfl, topologyHolds_distinct hholds, hgranted.flatten⟩

theorem yields_selectOneMachine (machines : List NodeId) (trace : TopologyTrace) :
    Yields trace (selectOneMachine ctx machines) fun allocation _ => Sound ctx allocation := by
  induction machines generalizing trace with
  | nil => exact yields_throw _ _ _
  | cons machine rest ih =>
    rw [selectOneMachine, yields_ite]
    refine ⟨fun _ => ih trace, fun _ => ?_⟩
    refine @yields_bind _ _ _ _ _ _ _ (fun greedy _ => ∀ found, greedy = some found →
      AllGranted ctx found.1) _ ?_ fun greedy t hgreedy => ?_
    · intro greedy t hobserved found hfound
      subst hfound
      rcases observe_ok.mp hobserved with ⟨_, ⟨⟩, hsome⟩ | ⟨hnone, -⟩
      · exact yields_selectNeeds _ _ _ _ _ allGranted_nil found t hsome
      · cases hnone
    · split
      · rename_i picked notes hfiltered
        obtain ⟨hfound, hholds⟩ := Option.filter_eq_some_iff.mp hfiltered
        exact yields_grantOnMachine machine notes t (hgreedy _ hfound) hholds
      · rw [yields_ite]
        refine ⟨fun _ => ih t, fun _ => ?_⟩
        refine yields_bind (yields_searchMachine _ t) fun searched u hsearched => ?_
        cases searched with
        | none => exact ih u
        | some picked =>
          obtain ⟨hgranted, hholds⟩ := hsearched picked rfl
          simp only [yields_attempt_bind]
          exact fun notes _ => yields_grantOnMachine machine notes u hgranted hholds

end Select

open Select in
theorem select_sound {graph : Graph} {occupancy : Occupancy} {request : Request}
    {quarantine : List NodeId} {allocation : Allocation}
    (h : select graph occupancy request quarantine = .ok allocation) :
    Sound ⟨graph, occupancy, request, packMode request, quarantine⟩ allocation := by
  simp only [select, check_bind_ok, refuseIf_ok] at h
  obtain ⟨_, -, h⟩ := h
  split at h
  · obtain ⟨t, ht⟩ := conclude_ok.mp h
    exact yields_selectOneMachine _ _ allocation t ht
  · obtain ⟨t, ht⟩ := conclude_ok.mp h
    exact yields_selectAcross _ allocation t ht

end Archon.Kernel
