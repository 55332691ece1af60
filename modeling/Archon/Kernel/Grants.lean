import Archon.Kernel.Candidates
import Archon.Kernel.Topology

/-! A grant is one group of claims for each need. Greedy selection builds the
groups in order and the search fills them in place; either way a group has
exactly what its need asks for, on candidates of that need. -/
namespace Archon.Kernel
open Fallible

namespace Select
variable {ctx : SelectCtx} {allowed : Option (List NodeId)} {need : Need}

/-- How many nodes a need without consumable amounts takes. -/
def unitCount (need : Need) : UInt64 := max (quantityGet need.quantity .count) 1

/-- The group gives the need what it asks for, on its candidates. -/
structure Serves (ctx : SelectCtx) (allowed : Option (List NodeId)) (need : Need)
    (group : List Claim) : Prop where
  whole : isConsumableNeed need → ∃ node, group = [⟨node, consumableQuantity need⟩]
  units : isConsumableNeed need = false → group.length = (unitCount need).toNat ∧
    ∀ claim ∈ group, claim.quantity = qty .count 1
  candidate : ∀ claim ∈ group, ∃ found,
    candidates ctx.graph ctx.occupancy need ctx.quarantine = .ok found ∧ claim.node ∈ found
  within : ∀ claim ∈ group, ∀ nodes ∈ allowed, claim.node ∈ nodes

theorem serves_whole {found : List NodeId} {node : NodeId} (hconsumable : isConsumableNeed need)
    (hfound : candidates ctx.graph ctx.occupancy need ctx.quarantine = .ok found)
    (hmem : node ∈ found) (hallowed : ∀ nodes ∈ allowed, node ∈ nodes) :
    Serves ctx allowed need [⟨node, consumableQuantity need⟩] where
  whole _ := ⟨node, rfl⟩
  units h := by simp [hconsumable] at h
  candidate := by simpa using ⟨found, hfound, hmem⟩
  within := by simpa using hallowed

theorem serves_units {found : List NodeId} {group : List Claim}
    (hcountable : isConsumableNeed need = false)
    (hfound : candidates ctx.graph ctx.occupancy need ctx.quarantine = .ok found)
    (hlength : group.length = (unitCount need).toNat)
    (hclaims : ∀ claim ∈ group, claim.node ∈ found ∧ (∀ nodes ∈ allowed, claim.node ∈ nodes) ∧
      claim.quantity = qty .count 1) :
    Serves ctx allowed need group where
  whole h := by simp [hcountable] at h
  units _ := ⟨hlength, fun claim hclaim => (hclaims claim hclaim).2.2⟩
  candidate claim hclaim := ⟨found, hfound, (hclaims claim hclaim).1⟩
  within claim hclaim := (hclaims claim hclaim).2.1

/-! Greedy selection. -/

theorem yields_takeWhole_one (scoring : ScoreCtx) (wanted : Quantity) (ranked : List NodeId)
    (trace : TopologyTrace) :
    Yields trace (takeWhole scoring wanted ranked) fun result _ =>
      ∀ taken, result = some taken → ∃ node ∈ ranked, taken.1 = [⟨node, wanted⟩] := by
  induction ranked generalizing trace with
  | nil => simp [takeWhole]
  | cons node rest ih =>
    have hlater : ∀ trace, Yields trace (takeWhole scoring wanted rest) fun result _ =>
        ∀ taken, result = some taken → ∃ other ∈ node :: rest, taken.1 = [⟨other, wanted⟩] := by
      intro trace result t hresult taken htaken
      obtain ⟨other, hmem, hclaims⟩ := ih trace result t hresult taken htaken
      exact ⟨other, List.mem_cons_of_mem _ hmem, hclaims⟩
    simp only [takeWhole, topologyHoldsTraced, bind_assoc, pure_bind, yields_attempt_bind, yields_ite,
      yields_modify_bind, yields_pure]
    intro covered _
    refine ⟨fun _ => ⟨fun _ score _ => ?_, fun _ => hlater _⟩, fun _ => hlater _⟩
    rintro taken ⟨⟩
    exact ⟨node, List.mem_cons_self, rfl⟩

theorem yields_takeOnMachine_full (scoring : ScoreCtx) (count : UInt64)
    (ranked machines : List NodeId) (trace : TopologyTrace) :
    Yields trace (takeOnMachine scoring count ranked machines) fun result _ =>
      ∀ taken, result = some taken → taken.1.length = count.toNat ∧
        ∃ machine, ∀ claim ∈ taken.1, claim.node ∈ ranked ∧ claim.quantity = qty .count 1 ∧
          scoring.graph.machineOf claim.node = some machine := by
  induction machines generalizing trace with
  | nil => simp [takeOnMachine]
  | cons machine rest ih =>
    rw [takeOnMachine]
    refine yields_bind (yields_takeUnits _ _ _ _ _ _) fun taken t htaken => ?_
    simp only [yields_ite, yields_pure]
    refine ⟨fun hlength => ?_, fun _ => ih t⟩
    rintro _ ⟨⟩
    refine ⟨hlength, machine, fun claim hclaim => ?_⟩
    rcases htaken claim hclaim with hnone | ⟨hmem, hquantity⟩
    · cases hnone
    · obtain ⟨hranked, hmachine⟩ := List.mem_filter.mp hmem
      exact ⟨hranked, hquantity, by simpa using hmachine⟩

/-- One need, served; a local one of several units on one machine. -/
structure Takes (ctx : SelectCtx) (allowed : Option (List NodeId)) (need : Need)
    (group : List Claim) : Prop where
  serves : Serves ctx allowed need group
  together : ctx.request.machineLocal → isConsumableNeed need = false →
    ∃ machine, ∀ claim ∈ group, ctx.graph.machineOf claim.node = some machine

theorem yields_selectNeedIn_takes (need : Need) (already : List (List Claim))
    (allowed : Option (List NodeId)) (trace : TopologyTrace) :
    Yields trace (selectNeedIn ctx need already allowed) fun taken _ =>
      Takes ctx allowed need taken.1 := by
  unfold selectNeedIn
  simp only [yields_attempt_bind, yields_ite]
  intro found hfound _ _
  have hallowed : ∀ {node}, node ∈ found.filter (fun node => allowed.all fun nodes => node ∈ nodes) →
      node ∈ found ∧ ∀ nodes ∈ allowed, node ∈ nodes := by
    intro node hnode
    obtain ⟨hmem, hall⟩ := List.mem_filter.mp hnode
    refine ⟨hmem, fun nodes hnodes => ?_⟩
    rw [Option.mem_def] at hnodes
    rw [hnodes] at hall
    simpa using hall
  constructor
  · intro hconsumable _ _ ranked hranked
    refine yields_bind (yields_takeWhole_one _ _ _ _) fun taken t htaken result u hresult => ?_
    simp only [attempt_ok, okOr_ok] at hresult
    obtain ⟨node, hmem, hclaims⟩ := htaken _ hresult.1
    obtain ⟨hcandidate, hwithin⟩ := hallowed ((mem_rank hranked).mp hmem)
    refine ⟨?_, fun _ hcountable => by simp [hconsumable] at hcountable⟩
    rw [hclaims]
    exact serves_whole hconsumable hfound hcandidate hwithin
  · intro hconsumable
    have hcountable : isConsumableNeed need = false := by simpa using hconsumable
    refine ⟨fun _ ranked hranked => ?_, fun hspread => ?_⟩
    · refine yields_bind (yields_takeOnMachine_full _ _ _ _ _) fun taken t htaken result u hresult => ?_
      simp only [attempt_ok, okOr_ok] at hresult
      obtain ⟨hlength, machine, hclaims⟩ := htaken _ hresult.1
      refine ⟨serves_units hcountable hfound hlength fun claim hclaim => ?_, fun _ _ =>
        ⟨machine, fun claim hclaim => (hclaims claim hclaim).2.2⟩⟩
      obtain ⟨hmem, hquantity, -⟩ := hclaims claim hclaim
      obtain ⟨hcandidate, hwithin⟩ := hallowed ((mem_rank hranked).mp hmem)
      exact ⟨hcandidate, hwithin, hquantity⟩
    · simp only [selectSpread, yields_attempt_bind]
      intro ranked hranked
      refine yields_bind (yields_takeUnits _ _ _ _ _ _) fun taken t htaken => ?_
      simp only [yields_attempt_bind, yields_pure, refuseIf_ok, not_not]
      intro _ hlength
      refine ⟨serves_units hcountable hfound hlength fun claim hclaim => ?_, fun hlocal =>
        absurd hlocal hspread⟩
      rcases htaken claim hclaim with hnone | ⟨hmem, hquantity⟩
      · cases hnone
      · obtain ⟨hcandidate, hwithin⟩ := hallowed ((mem_rank hranked).mp hmem)
        exact ⟨hcandidate, hwithin, hquantity⟩

theorem yields_selectNeeds_takes (needs done : List Need) (picked : List (List Claim))
    (notes : List String) (trace : TopologyTrace)
    (h : List.Forall₂ (Takes ctx allowed) done picked) :
    Yields trace (selectNeeds ctx allowed picked notes needs) fun result _ =>
      List.Forall₂ (Takes ctx allowed) (done ++ needs) result.1 := by
  induction needs generalizing done picked notes trace with
  | nil => simpa [selectNeeds] using h
  | cons need rest ih =>
    rw [selectNeeds]
    refine yields_bind (yields_selectNeedIn_takes _ _ _ _) fun taken t htaken => ?_
    rw [List.append_cons]
    exact ih (done ++ [need]) _ _ t (List.rel_append h (.cons htaken .nil))

/-! Search. -/

namespace MachineSearch

/-- Only the selection from `index` on may differ. -/
structure Below (index : Nat) (search after : MachineSearch) : Prop where
  length : after.picked.length = search.picked.length
  take : after.picked.take index = search.picked.take index

theorem Below.of_picked {index : Nat} {search after : MachineSearch}
    (h : after.picked = search.picked) : Below index search after :=
  ⟨congrArg List.length h, congrArg (List.take index) h⟩

theorem Below.trans {index : Nat} {first second third : MachineSearch}
    (h : Below index first second) (h' : Below index second third) : Below index first third :=
  ⟨h'.length.trans h.length, h'.take.trans h.take⟩

theorem Below.weaken {index : Nat} {search after : MachineSearch} (h : Below (index + 1) search after) :
    Below index search after := by
  refine ⟨h.length, ?_⟩
  have htake := congrArg (List.take index) h.take
  simpa [List.take_take] using htake

theorem Below.of_set {index : Nat} {search after : MachineSearch} {claims : List Claim}
    (h : after.picked = search.picked.set index claims) : Below index search after := by
  refine ⟨by rw [h, List.length_set], ?_⟩
  rw [h, List.take_set_of_le le_rfl]

/-- A stage leaves alone what is selected below `index`; if it succeeds, the
needs from there on are served. -/
structure Fills (ctx : SelectCtx) (allowed : List NodeId) (index : Nat) (needs : List Need)
    (search : MachineSearch) (done : Bool) (after : MachineSearch) : Prop where
  below : Below index search after
  served : done = true → List.Forall₂ (Serves ctx (some allowed)) needs (after.picked.drop index)

/-- The stage fills the selection from wherever it starts. -/
def Filling (ctx : SelectCtx) (allowed : List NodeId) (index : Nat) (needs : List Need)
    (stage : SearchM Bool) : Prop :=
  ∀ search, search.picked.length = index + needs.length →
    Yields search stage (Fills ctx allowed index needs search)

variable {nodes : List NodeId} {index : Nat} {rest : List Need}

theorem Fills.failed {needs : List Need} {search after : MachineSearch}
    (h : Below index search after) : Fills ctx nodes index needs search false after :=
  ⟨h, fun hfalse => absurd hfalse (by simp)⟩

theorem Fills.after {needs : List Need} {first search after : MachineSearch} {done : Bool}
    (hbelow : Below index first search) (h : Fills ctx nodes index needs search done after) :
    Fills ctx nodes index needs first done after :=
  ⟨hbelow.trans h.below, h.served⟩

theorem Fills.picked {search after : MachineSearch} {claims : List Claim} {done : Bool}
    (hclaims : search.picked[index]? = some claims) (hserves : Serves ctx (some nodes) need claims)
    (h : Fills ctx nodes (index + 1) rest search done after) :
    Fills ctx nodes index (need :: rest) search done after := by
  refine ⟨h.below.weaken, fun hdone => ?_⟩
  have hentry : after.picked[index]? = some claims := by
    have hget := congrArg (fun picked => picked[index]?) h.below.take
    simpa [List.getElem?_take, hclaims] using hget
  obtain ⟨hin, heq⟩ := List.getElem?_eq_some_iff.mp hentry
  rw [List.drop_eq_getElem_cons hin, heq]
  exact .cons hserves (h.served hdone)

theorem yields_holdsTraced_picked (search : MachineSearch) :
    Yields search (holdsTraced ctx) fun _ after => after.picked = search.picked := by
  simp only [holdsTraced, yields_get_bind, yields_modify_bind, yields_pure]

theorem filling_holdsTraced : Filling ctx nodes index [] (holdsTraced ctx) := by
  intro search h holds after hafter
  have hpicked := yields_holdsTraced_picked search holds after hafter
  refine ⟨.of_picked hpicked, fun _ => ?_⟩
  rw [hpicked, List.drop_of_length_le (by simpa using h.le)]
  exact .nil

theorem yields_consume_picked (search : MachineSearch) :
    Yields search consume fun _ after => after.picked = search.picked := by
  simp only [consume, yields_get_bind, yields_ite, yields_pure, yields_modify_bind]
  exact ⟨fun _ => trivial, fun _ => trivial⟩

theorem fills_try {needs : List Need} {check : Except Error Bool} {claims undo : List Claim}
    {next other : SearchM Bool} {search : MachineSearch}
    (hnext : ∀ traced, traced.picked = search.picked.set index claims →
      Yields traced next (Fills ctx nodes index needs traced))
    (hother : ∀ after, Below index search after →
      Yields after other (Fills ctx nodes index needs after)) :
    Yields search (do
      let budgeted ← consume
      if budgeted then
        let covered ← attempt check
        if covered then
          pick index claims
          let holds ← holdsTraced ctx
          let done ← if holds then next else pure false
          if done then
            return true
          else do
            pick index undo
            other
        else
          other
      else
        return false) (Fills ctx nodes index needs search) := by
  refine yields_bind (yields_consume_picked search) fun budgeted spent hspent => ?_
  have hbelow : Below index search spent := .of_picked hspent
  have hpassed : Yields spent other (Fills ctx nodes index needs search) :=
    fun done after hafter => (hother spent hbelow done after hafter).after hbelow
  have hrest : ∀ done tried, Fills ctx nodes index needs search done tried →
      Yields tried (do
        if done then
          return true
        else do
          pick index undo
          other) (Fills ctx nodes index needs search) := by
    intro done tried htried
    simp only [pick, yields_ite, yields_pure, yields_modify_bind]
    refine ⟨fun hdone => ⟨htried.below, fun _ => htried.served hdone⟩, fun _ => ?_⟩
    have hundone : Below index search { tried with picked := tried.picked.set index undo } :=
      htried.below.trans (.of_set rfl)
    exact fun done after hafter => (hother _ hundone done after hafter).after hundone
  simp only [yields_ite, yields_attempt_bind, yields_pure]
  refine ⟨fun _ covered _ => ⟨fun _ => ?_, fun _ => hpassed⟩, fun _ => .failed hbelow⟩
  simp only [pick, yields_modify_bind]
  refine yields_bind (yields_holdsTraced_picked _) fun holds traced htraced => ?_
  have hset : traced.picked = search.picked.set index claims := by rw [htraced, hspent]
  rw [yields_ite]
  refine ⟨fun _ => yields_bind (hnext traced hset) fun done tried htried =>
    hrest done tried (htried.after (.of_set hset)), fun _ => ?_⟩
  exact yields_bind (yields_pure.mpr (Fills.failed (.of_set hset))) hrest

theorem fills_next {search traced : MachineSearch} {claims : List Claim} {next : SearchM Bool}
    (hnext : Filling ctx nodes (index + 1) rest next)
    (hlength : search.picked.length = index + (need :: rest).length)
    (hset : traced.picked = search.picked.set index claims)
    (hserves : Serves ctx (some nodes) need claims) :
    Yields traced next (Fills ctx nodes index (need :: rest) traced) := by
  rw [List.length_cons] at hlength
  have hentry : traced.picked[index]? = some claims := by
    rw [hset, List.getElem?_set_self (by omega)]
  intro done after hafter
  have hsize : traced.picked.length = index + 1 + rest.length := by
    rw [hset, List.length_set]
    omega
  exact (hnext traced hsize done after hafter).picked hentry hserves

theorem filling_tryWhole {wanted : Quantity} {next : SearchM Bool} {ranked : List NodeId}
    (hranked : ∀ node ∈ ranked, Serves ctx (some nodes) need [⟨node, wanted⟩])
    (hnext : Filling ctx nodes (index + 1) rest next) :
    Filling ctx nodes index (need :: rest) (tryWhole ctx index wanted next ranked) := by
  induction ranked with
  | nil =>
    intro search _
    simp only [tryWhole, yields_pure]
    exact .failed (.of_picked rfl)
  | cons node others ih =>
    have hothers := ih fun other hother => hranked other (List.mem_cons_of_mem _ hother)
    intro search hlength
    refine fills_try (fun traced hset => ?_) fun after hbelow => ?_
    · exact fills_next hnext hlength hset (hranked node List.mem_cons_self)
    · exact hothers after (hbelow.length.trans hlength)

/-- The nodes of a group come from those chosen and those still ranked. -/
theorem fills_group {count : UInt64} {next : SearchM Bool} {ranked : List NodeId}
    {chosen : List Claim} {search : MachineSearch}
    (hserves : ∀ group : List Claim, group.length = count.toNat →
      (∀ claim ∈ group, claim ∈ chosen ∨ claim.node ∈ ranked ∧ claim.quantity = qty .count 1) →
      Serves ctx (some nodes) need group)
    (hnext : Filling ctx nodes (index + 1) rest next)
    (hlength : search.picked.length = index + (need :: rest).length)
    (hchosen : chosen.length = count.toNat → search.picked[index]? = some chosen) :
    Yields search (group ctx index count next chosen ranked)
      (Fills ctx nodes index (need :: rest) search) := by
  induction ranked generalizing chosen search with
  | nil =>
    simp only [group, yields_ite, yields_pure]
    refine ⟨fun henough done after hafter => ?_, fun _ => .failed (.of_picked rfl)⟩
    exact (hnext search (by simpa [Nat.add_right_comm, Nat.add_assoc] using hlength) done after
      hafter).picked (hchosen henough) (hserves chosen henough fun claim hclaim => .inl hclaim)
  | cons node others ih =>
    rw [group, yields_ite]
    refine ⟨fun henough done after hafter => ?_, fun hshort => ?_⟩
    · exact (hnext search (by simpa [Nat.add_right_comm, Nat.add_assoc] using hlength) done after
        hafter).picked (hchosen henough) (hserves chosen henough fun claim hclaim => .inl hclaim)
    · refine fills_try (fun traced hset => ?_) fun after hbelow => ?_
      · refine ih (fun group henough hgroup => hserves group henough fun claim hclaim => ?_) ?_ fun _ => ?_
        · rcases hgroup claim hclaim with hmem | ⟨hmem, hquantity⟩
          · rcases List.mem_append.mp hmem with hmem | hnew
            · exact .inl hmem
            · rw [List.mem_singleton.mp hnew]
              exact .inr ⟨List.mem_cons_self, rfl⟩
          · exact .inr ⟨List.mem_cons_of_mem _ hmem, hquantity⟩
        · rw [hset, List.length_set]
          exact hlength
        · rw [hset, List.getElem?_set_self (by rw [hlength, List.length_cons]; omega)]
      · refine ih (fun group henough hgroup => hserves group henough fun claim hclaim => ?_)
          (hbelow.length.trans hlength) fun henough => absurd henough hshort
        rcases hgroup claim hclaim with hmem | ⟨hmem, hquantity⟩
        · exact .inl hmem
        · exact .inr ⟨List.mem_cons_of_mem _ hmem, hquantity⟩

theorem one_le_unitCount (need : Need) : 1 ≤ (unitCount need).toNat := by
  rw [unitCount, toNat_max]
  exact Nat.le_max_right _ _

theorem filling_needs (nodes : List NodeId) (index : Nat) (needs : List Need) :
    Filling ctx nodes index needs (MachineSearch.needs ctx nodes index needs) := by
  induction needs generalizing index with
  | nil => exact filling_holdsTraced
  | cons need rest ih =>
    intro search hlength
    simp only [MachineSearch.needs, yields_get_bind, yields_attempt_bind, yields_ite, yields_pure]
    intro found hfound
    refine ⟨fun _ => .failed (.of_picked rfl), fun _ ranked hranked => ?_⟩
    have hmem : ∀ node ∈ ranked, node ∈ found ∧ ∀ allowed ∈ some nodes, node ∈ allowed := by
      intro node hnode
      obtain ⟨hin, hallowed⟩ := List.mem_filter.mp ((mem_rank hranked).mp hnode)
      refine ⟨hin, ?_⟩
      rintro allowed ⟨⟩
      simpa using hallowed
    refine ⟨fun hconsumable => ?_, fun hconsumable => ?_⟩
    · refine filling_tryWhole (fun node hnode => ?_) (ih _) search hlength
      exact serves_whole hconsumable hfound (hmem node hnode).1 (hmem node hnode).2
    · have hcountable : isConsumableNeed need = false := by simpa using hconsumable
      refine fills_group (fun group henough hgroup => ?_) (ih _) hlength fun hnone => ?_
      · refine serves_units hcountable hfound henough fun claim hclaim => ?_
        rcases hgroup claim hclaim with hnone | ⟨hnode, hquantity⟩
        · cases hnone
        · exact ⟨(hmem _ hnode).1, (hmem _ hnode).2, hquantity⟩
      · have hsome := one_le_unitCount need
        rw [unitCount, ← hnone] at hsome
        simp at hsome

end MachineSearch

/-- What the search reports has served every need. -/
theorem yields_searchMachine_serves (nodes : List NodeId) (trace : TopologyTrace) :
    Yields trace (searchMachine ctx nodes) fun result _ => ∀ picked, result = some picked →
      List.Forall₂ (Serves ctx (some nodes)) ctx.request.needs picked := by
  intro result t hresult picked hpicked
  subst hpicked
  have hfound := @MachineSearch.filling_needs ctx nodes 0 ctx.request.needs
    ⟨trace, MachineSearch.fallbackSearchBudget, ctx.request.needs.map fun _ => []⟩ (by simp)
  unfold searchMachine at hresult
  dsimp only at hresult
  split at hresult
  · rename_i search hsearch
    have hserved := (hfound true search hsearch).served rfl
    cases hresult
    simpa using hserved
  · cases hresult
  · cases hresult

/-! Whole allocations. -/

/-- The allocation is one group for each need, which together hold up. -/
structure Answers (ctx : SelectCtx) (allowed : Option (List NodeId)) (groups : List (List Claim))
    (allocation : Allocation) : Prop where
  revision : allocation.graphRevision = ctx.graph.revision
  claims : allocation.claims = groups.flatten
  served : List.Forall₂ (Serves ctx allowed) ctx.request.needs groups
  holds : topologyHolds ctx.graph groups ctx.request

/-- Where an allocation comes from: all over the graph, need by need, or from
under one machine that is not blocked. -/
inductive Placed (ctx : SelectCtx) (allocation : Allocation) : Prop where
  | across {groups : List (List Claim)} (h : Answers ctx none groups allocation)
      (htakes : List.Forall₂ (Takes ctx none) ctx.request.needs groups)
  | onMachine {groups : List (List Claim)} {machine : NodeId}
      (hmachine : machine ∈ ctx.graph.nodesOfClass .machine)
      (hclear : isBlocked ctx.graph ctx.quarantine machine = false)
      (h : Answers ctx (some (machine :: ctx.graph.descendants machine)) groups allocation)

/-- The grant was made need by need, on any machines. -/
def Across (ctx : SelectCtx) (allocation : Allocation) : Prop :=
  ∃ groups, Answers ctx none groups allocation ∧ List.Forall₂ (Takes ctx none) ctx.request.needs groups

theorem yields_selectAcross_across (trace : TopologyTrace) :
    Yields trace (selectAcross ctx) fun allocation _ => Across ctx allocation := by
  unfold selectAcross
  refine yields_bind (yields_selectNeeds_takes _ [] _ _ _ .nil) fun result t htakes => ?_
  simp only [yields_attempt_bind, refuseIf_ok, not_not, yields_get_bind, yields_pure]
  intro _ hholds reasons _
  exact ⟨result.1, ⟨rfl, rfl, htakes.imp fun _ _ h => h.serves, hholds⟩, htakes⟩

theorem yields_grantOnMachine_answers (machine : NodeId) {picked : List (List Claim)}
    (notes : List String) (trace : TopologyTrace)
    (hserved : List.Forall₂ (Serves ctx allowed) ctx.request.needs picked)
    (hholds : topologyHolds ctx.graph picked ctx.request) :
    Yields trace (grantOnMachine ctx machine picked notes) fun allocation _ =>
      Answers ctx allowed picked allocation := by
  simp only [grantOnMachine, yields_get_bind, yields_attempt_bind, yields_pure]
  exact fun _ _ => ⟨rfl, rfl, hserved, hholds⟩

/-- The grant was made on one machine, need by need unless there are constraints. -/
def OnMachine (ctx : SelectCtx) (allocation : Allocation) : Prop :=
  ∃ machine ∈ ctx.graph.nodesOfClass .machine, isBlocked ctx.graph ctx.quarantine machine = false ∧
    ∃ groups, Answers ctx (some (machine :: ctx.graph.descendants machine)) groups allocation ∧
      (ctx.request.topology = [] → List.Forall₂
        (Takes ctx (some (machine :: ctx.graph.descendants machine))) ctx.request.needs groups)

theorem yields_selectOneMachine_onMachine (machines : List NodeId) (trace : TopologyTrace)
    (hmachines : ∀ machine ∈ machines, machine ∈ ctx.graph.nodesOfClass .machine) :
    Yields trace (selectOneMachine ctx machines) fun allocation _ => OnMachine ctx allocation := by
  induction machines generalizing trace with
  | nil => exact yields_throw _ _ _
  | cons machine rest ih =>
    have hrest := fun t => ih t fun other hother => hmachines other (List.mem_cons_of_mem _ hother)
    rw [selectOneMachine, yields_ite]
    refine ⟨fun _ => hrest trace, fun hclear => ?_⟩
    have hplaced : ∀ groups notes t,
        List.Forall₂ (Serves ctx (some (machine :: ctx.graph.descendants machine)))
          ctx.request.needs groups → topologyHolds ctx.graph groups ctx.request →
        (ctx.request.topology = [] → List.Forall₂
          (Takes ctx (some (machine :: ctx.graph.descendants machine))) ctx.request.needs groups) →
        Yields t (grantOnMachine ctx machine groups notes) fun allocation _ => OnMachine ctx allocation :=
      fun groups notes t hserved hholds htakes allocation u hallocation =>
        ⟨machine, hmachines machine List.mem_cons_self, by simpa using hclear, groups,
          yields_grantOnMachine_answers machine notes t hserved hholds allocation u hallocation, htakes⟩
    refine @yields_bind _ _ _ _ _ _ _ (fun greedy _ => ∀ found, greedy = some found →
      List.Forall₂ (Takes ctx (some (machine :: ctx.graph.descendants machine)))
        ctx.request.needs found.1) _ ?_ fun greedy t hgreedy => ?_
    · intro greedy t hobserved found hfound
      subst hfound
      rcases observe_ok.mp hobserved with ⟨_, ⟨⟩, hsome⟩ | ⟨hnone, -⟩
      · exact yields_selectNeeds_takes _ [] _ _ _ .nil found t hsome
      · cases hnone
    · split
      · rename_i picked notes hfiltered
        obtain ⟨hfound, hholds⟩ := Option.filter_eq_some_iff.mp hfiltered
        have htakes := hgreedy _ hfound
        exact hplaced picked notes t (htakes.imp fun _ _ h => h.serves) hholds fun _ => htakes
      · rw [yields_ite]
        refine ⟨fun _ => hrest t, fun hconstrained => ?_⟩
        refine yields_bind (fun searched u hfound => And.intro
          (yields_searchMachine _ t searched u hfound)
          (yields_searchMachine_serves _ t searched u hfound)) fun searched u hsearched => ?_
        cases searched with
        | none => exact hrest u
        | some picked =>
          simp only [yields_attempt_bind]
          exact fun notes _ => hplaced picked notes u (hsearched.2 picked rfl)
            (hsearched.1 picked rfl).2 fun hnone => absurd (by simp [hnone]) hconstrained

end Select

section Grants
open Select
variable {graph : Graph} {occupancy : Occupancy} {request : Request} {quarantine : List NodeId}
  {allocation : Allocation}

theorem select_onMachine (h : select graph occupancy request quarantine = .ok allocation)
    (hlocal : request.machineLocal) (hneeds : 1 < request.needs.length) :
    OnMachine ⟨graph, occupancy, request, packMode request, quarantine⟩ allocation := by
  simp only [select, check_bind_ok] at h
  obtain ⟨_, -, h⟩ := h
  rw [if_pos (by simp [hlocal, hneeds])] at h
  obtain ⟨t, ht⟩ := conclude_ok.mp h
  exact yields_selectOneMachine_onMachine _ _ (fun _ hmachine => hmachine) allocation t ht

theorem select_across (h : select graph occupancy request quarantine = .ok allocation)
    (hrequest : ¬(request.machineLocal ∧ 1 < request.needs.length)) :
    Across ⟨graph, occupancy, request, packMode request, quarantine⟩ allocation := by
  simp only [select, check_bind_ok] at h
  obtain ⟨_, -, h⟩ := h
  rw [if_neg (by simpa using hrequest)] at h
  obtain ⟨t, ht⟩ := conclude_ok.mp h
  exact yields_selectAcross_across _ allocation t ht

theorem select_placed (hselect : select graph occupancy request quarantine = .ok allocation) :
    Placed ⟨graph, occupancy, request, packMode request, quarantine⟩ allocation ∧
      ∀ constraint ∈ request.topology, constraint.left < request.needs.length ∧
        constraint.right < request.needs.length := by
  have h := hselect
  simp only [select, check_bind_ok, refuseIf_ok] at h
  obtain ⟨_, hnames, -⟩ := h
  refine ⟨?_, fun constraint hconstraint => ?_⟩
  · by_cases hrequest : request.machineLocal ∧ 1 < request.needs.length
    · obtain ⟨machine, hmachine, hclear, groups, hanswers, -⟩ :=
        select_onMachine hselect hrequest.1 hrequest.2
      exact .onMachine hmachine hclear hanswers
    · obtain ⟨groups, hanswers, htakes⟩ := select_across hselect hrequest
      exact .across hanswers htakes
  · by_contra hout
    refine hnames (List.any_eq_true.mpr ⟨constraint, hconstraint, ?_⟩)
    simp only [Bool.or_eq_true, decide_eq_true_eq]
    omega

/-- What a need asks of the one node that serves it whole, or of each of several. -/
structure Suits (graph : Graph) (occupancy : Occupancy) (quarantine : List NodeId) (need : Need)
    (claim : Claim) : Prop where
  fits : ∃ node, graph.node claim.node = some node ∧ node.kind = need.kind ∧
    (∀ filter ∈ need.filters, node.attrs[filter.key]? = some filter.value) ∧
    ∀ d, quantityGet claim.quantity d ≤
      saturatingSub (quantityGet node.capacity d) (quantityGet (occupancy.usedOn claim.node) d)
  contract : ∃ contract, (∃ d, quantityGet claim.quantity d ≠ 0) ∧
    ∀ d, quantityGet claim.quantity d ≠ 0 → graph.claimBinding claim.node d = some contract
  clear : claim.node ∉ quarantine ∧ ∀ ancestor ∈ graph.ancestors claim.node, ancestor ∉ quarantine

/-- One group of claims for a need: the whole amount on one node, or single units
on as many nodes as are needed. -/
def GroupFor (need : Need) (group : List Claim) : Prop :=
  if isConsumableNeed need then ∃ node, group = [⟨node, consumableQuantity need⟩]
  else group.length = max (quantityGet need.quantity .count).toNat 1 ∧
    ∀ claim ∈ group, claim.quantity = qty .count 1

/-- Every node of one group relates to every node of the other. -/
def Relates (graph : Graph) (groups : List (List Claim)) (constraint : TopologyConstraint) : Prop :=
  ∃ left right, groups[constraint.left]? = some left ∧ groups[constraint.right]? = some right ∧
    ∀ l ∈ left, ∀ r ∈ right, graph.satisfies l.node r.node constraint.relation

theorem selectClaimBindings_all {node : NodeId} {entries : List (CapacityDimension × UInt64)}
    {selected : Option ClaimBinding} {required : ClaimBinding}
    (h : entries.foldlM (graph.selectClaimBinding node) selected = .ok (some required)) :
    (∀ existing ∈ selected, existing = required) ∧
      ∀ entry ∈ entries, entry.2 ≠ 0 → graph.claimBinding node entry.1 = some required := by
  induction entries generalizing selected with
  | nil =>
    simp only [List.foldlM_nil, check_pure_ok] at h
    simp [h]
  | cons entry entries ih =>
    rw [List.foldlM_cons, check_bind_ok] at h
    obtain ⟨next, hnext, hrest⟩ := h
    obtain ⟨hsame, hall⟩ := ih hrest
    unfold Graph.selectClaimBinding at hnext
    split at hnext
    · rename_i hzero
      rw [check_pure_ok] at hnext
      subst hnext
      refine ⟨hsame, fun other hother hpositive => ?_⟩
      rcases List.mem_cons.mp hother with rfl | hmem
      · exact absurd hzero hpositive
      · exact hall other hmem hpositive
    · simp only [check_bind_ok, okOr_ok] at hnext
      obtain ⟨binding, hbinding, hnext⟩ := hnext
      have hhead : binding = required ∧ ∀ existing ∈ selected, existing = required := by
        cases selected with
        | none =>
          rw [check_pure_ok] at hnext
          subst hnext
          exact ⟨hsame binding rfl, by simp⟩
        | some existing =>
          simp only [check_bind_ok, refuseIf_ok, not_not, check_pure_ok] at hnext
          obtain ⟨_, hequal, rfl⟩ := hnext
          have hexisting := hsame existing rfl
          refine ⟨hequal.symm.trans hexisting, ?_⟩
          rintro other ⟨⟩
          exact hexisting
      refine ⟨hhead.2, fun other hother hpositive => ?_⟩
      rcases List.mem_cons.mp hother with rfl | hmem
      · rw [hbinding, hhead.1]
      · exact hall other hmem hpositive

theorem claimBindingForQuantity_all {node : NodeId} {quantity : Quantity} {required : ClaimBinding}
    (h : graph.claimBindingForQuantity node quantity = .ok required) {d : CapacityDimension}
    (hd : quantityGet quantity d ≠ 0) : graph.claimBinding node d = some required := by
  simp only [Graph.claimBindingForQuantity, check_bind_ok, okOr_ok] at h
  obtain ⟨_, _, selected, hselected, rfl⟩ := h
  cases hentry : quantity[d]? with
  | none => simp [quantityGet, hentry] at hd
  | some amount =>
    refine (selectClaimBindings_all hselected).2 (d, amount)
      (Std.ExtTreeMap.mem_toList_iff_getElem?_eq_some.mpr hentry) ?_
    simpa [quantityGet, hentry] using hd

theorem not_isBlocked_iff {id : NodeId} : isBlocked graph quarantine id = false ↔
    id ∉ quarantine ∧ ∀ ancestor ∈ graph.ancestors id, ancestor ∉ quarantine := by
  simp [isBlocked]

theorem suits_of_candidate (hfiled : graph.Filed) {need : Need} {found : List NodeId} {claim : Claim}
    (hfound : candidates graph occupancy need quarantine = .ok found) (hmem : claim.node ∈ found)
    (hquantity : claim.quantity = needUnit need) : Suits graph occupancy quarantine need claim := by
  obtain ⟨hclass, hoffers⟩ := (Cluster.mem_candidates hfound claim.node).mp hmem
  obtain ⟨node, required, hnode, hcontract, hblocked, hfilters, hcover⟩ := Cluster.offers_ok.mp hoffers
  rw [hfiled.key _ _ hnode] at hblocked
  rw [← hquantity] at hcontract hcover
  obtain ⟨found', hfound', hle⟩ := Occupancy.canCover_ok.mp hcover
  obtain rfl : node = found' := Option.some.inj (hnode.symm.trans hfound')
  have hkind := (hfiled.byClass need.kind claim.node).mp hclass
  rw [Graph.hasKind, hnode] at hkind
  exact ⟨⟨node, hnode, by simpa using hkind, hfilters, hle⟩,
    ⟨required, Graph.claimBindingForQuantity_positive hcontract,
      fun d hd => claimBindingForQuantity_all hcontract hd⟩, not_isBlocked_iff.mp hblocked⟩

theorem groupFor_of_serves {ctx : SelectCtx} {allowed : Option (List NodeId)} {need : Need}
    {group : List Claim} (h : Serves ctx allowed need group) : GroupFor need group := by
  unfold GroupFor
  split
  · rename_i hconsumable
    exact h.whole hconsumable
  · rename_i hconsumable
    obtain ⟨hlength, hunits⟩ := h.units (by simpa using hconsumable)
    refine ⟨?_, hunits⟩
    rw [hlength, unitCount, toNat_max]
    rfl

theorem quantity_of_serves {ctx : SelectCtx} {allowed : Option (List NodeId)} {need : Need}
    {group : List Claim} (h : Serves ctx allowed need group) :
    ∀ claim ∈ group, claim.quantity = needUnit need := by
  intro claim hclaim
  unfold needUnit
  split
  · rename_i hconsumable
    obtain ⟨node, rfl⟩ := h.whole hconsumable
    rw [List.mem_singleton.mp hclaim]
  · rename_i hconsumable
    exact (h.units (by simpa using hconsumable)).2 claim hclaim

theorem relates_of_holds {groups : List (List Claim)} (h : topologyHolds graph groups request)
    {constraint : TopologyConstraint} (hmem : constraint ∈ request.topology)
    (hleft : constraint.left < groups.length) (hright : constraint.right < groups.length) :
    Relates graph groups constraint := by
  simp only [topologyHolds, Bool.and_eq_true, Option.isNone_iff_eq_none, topologyFailure,
    List.findSome?_eq_none_iff] at h
  obtain ⟨index, hindex, hget⟩ := List.mem_iff_getElem.mp hmem
  have hnone := h.2 (constraint, index) (List.mem_zipIdx_iff_getElem?.mpr (by simp [hget, hindex]))
  have hlefts := List.getElem?_eq_getElem hleft
  have hrights := List.getElem?_eq_getElem hright
  refine ⟨_, _, hlefts, hrights, fun l hl r hr => ?_⟩
  rw [hlefts, hrights] at hnone
  simp only [List.findSome?_eq_none_iff] at hnone
  have hpair := hnone l hl r hr
  by_contra hbroken
  simp [hbroken] at hpair

/-- What a grant holds: one group for each need, of exactly the amounts granted
for it, on nodes that suit the need, no node twice, and every constraint between
its two groups. -/
theorem select_grants (hfiled : graph.Filed)
    (h : select graph occupancy request quarantine = .ok allocation) :
    allocation.graphRevision = graph.revision ∧ ∃ groups, allocation.claims = groups.flatten ∧
      List.Forall₂ (fun need group => GroupFor need group ∧
        ∀ claim ∈ group, Suits graph occupancy quarantine need claim) request.needs groups ∧
      DistinctNodes allocation.claims ∧
      ∀ constraint ∈ request.topology, Relates graph groups constraint := by
  obtain ⟨hplaced, hnames⟩ := select_placed h
  have hall : ∀ allowed groups, Answers ⟨graph, occupancy, request, packMode request, quarantine⟩
      allowed groups allocation → allocation.graphRevision = graph.revision ∧
      ∃ groups, allocation.claims = groups.flatten ∧
      List.Forall₂ (fun need group => GroupFor need group ∧
        ∀ claim ∈ group, Suits graph occupancy quarantine need claim) request.needs groups ∧
      DistinctNodes allocation.claims ∧
      ∀ constraint ∈ request.topology, Relates graph groups constraint := by
    intro allowed groups hanswers
    have hserved : List.Forall₂ (fun need group => GroupFor need group ∧
        ∀ claim ∈ group, Suits graph occupancy quarantine need claim) request.needs groups := by
      refine hanswers.served.imp ?_
      intro need group hserves
      refine ⟨groupFor_of_serves hserves, ?_⟩
      intro claim hclaim
      obtain ⟨found, hfound, hmem⟩ := hserves.candidate claim hclaim
      exact suits_of_candidate hfiled hfound hmem (quantity_of_serves hserves claim hclaim)
    refine ⟨hanswers.revision, groups, hanswers.claims, hserved, ?_, ?_⟩
    · rw [hanswers.claims]
      exact topologyHolds_distinct hanswers.holds
    · intro constraint hconstraint
      have hlength := hanswers.served.length_eq
      obtain ⟨hleft, hright⟩ := hnames constraint hconstraint
      exact relates_of_holds hanswers.holds hconstraint (hlength ▸ hleft) (hlength ▸ hright)
  cases hplaced with
  | across hanswers => exact hall _ _ hanswers
  | onMachine _ _ hanswers => exact hall _ _ hanswers

/-! A machine with a gpu of two units and a memory node beside it. -/

namespace Sample

def mixedHost : List Event := [
  .apply (.applyResourceFacts
    [⟨1, .machine, ∅, ∅⟩, ⟨2, .gpu, ∅, qty .count 2⟩, ⟨3, .memory, ∅, qty .bytes 4096⟩]
    [⟨1, 2, .contains, ∅⟩, ⟨1, 3, .contains, ∅⟩]
    [⟨2, .count, some ⟨.enforce, .exclusive⟩⟩, ⟨3, .bytes, some ⟨.enforce, .exclusive⟩⟩])]

def mixedGraph : Graph := (Cluster.run mixedHost).graph

/-- A unit of the gpu, and memory counted in bytes and in units. -/
def mixedRequest : Request where
  id := 1
  requestClass := .batch
  needs := [⟨.gpu, qty .count 1, []⟩, ⟨.memory, (qty .bytes 1).insert .count 3, []⟩]
  topology := [⟨0, 1, .sameAncestor .machine⟩]
  preferences := []
  data := []
  lifetime := 10
  priority := 0
  machineLocal := true

end Sample

theorem ok_of_toOption {α : Type} {result : Except Error α} {value : α}
    (h : result.toOption = some value) : result = .ok value := by
  cases result with
  | error e => simp [Except.toOption] at h
  | ok found => simpa [Except.toOption] using h

theorem mixed_granted : ∃ allocation,
    select Sample.mixedGraph ⟨∅⟩ Sample.mixedRequest [] = .ok allocation ∧
      allocation.claims = [⟨2, qty .count 1⟩, ⟨3, qty .bytes 1⟩] := by
  have hclaims : (select Sample.mixedGraph ⟨∅⟩ Sample.mixedRequest []).toOption.map
      (fun allocation => allocation.claims) = some [⟨2, qty .count 1⟩, ⟨3, qty .bytes 1⟩] := by
    decide +kernel
  obtain ⟨allocation, hselect, hclaims⟩ := Option.map_eq_some_iff.mp hclaims
  exact ⟨allocation, ok_of_toOption hselect, hclaims⟩

/-- Its groups suit its needs and share the machine. -/
theorem mixed_grant_suits : ∃ allocation groups,
    select Sample.mixedGraph ⟨∅⟩ Sample.mixedRequest [] = .ok allocation ∧
      allocation.claims = groups.flatten ∧
      List.Forall₂ (fun need group => GroupFor need group ∧
        ∀ claim ∈ group, Suits Sample.mixedGraph ⟨∅⟩ [] need claim)
        Sample.mixedRequest.needs groups ∧
      Relates Sample.mixedGraph groups ⟨0, 1, .sameAncestor .machine⟩ := by
  obtain ⟨allocation, hselect, -⟩ := mixed_granted
  obtain ⟨-, groups, hclaims, hserved, -, hrelates⟩ :=
    select_grants (Cluster.filed_run Sample.mixedHost) hselect
  exact ⟨allocation, groups, hselect, hclaims, hserved, hrelates _ List.mem_cons_self⟩

/-- The units asked for beside the bytes of memory are not granted. -/
theorem memory_units_not_granted :
    ¬∀ (graph : Graph) (occupancy : Occupancy) (request : Request) (quarantine : List NodeId)
      (allocation : Allocation), graph.Filed →
      select graph occupancy request quarantine = .ok allocation →
      ∃ groups, allocation.claims = groups.flatten ∧
        List.Forall₂ (fun need group => isConsumableNeed need →
          ∃ node, group = [⟨node, need.quantity⟩]) request.needs groups := by
  intro h
  obtain ⟨allocation, hselect, hclaims⟩ := mixed_granted
  obtain ⟨groups, hgroups, hserved⟩ := h _ _ _ _ _ (Cluster.filed_run Sample.mixedHost) hselect
  have hunits : ∀ claim ∈ allocation.claims, quantityGet claim.quantity .count ≠ 3 := by
    rw [hclaims]
    decide +kernel
  cases hserved with
  | cons _ hserved =>
    cases hserved with
    | @cons _ group _ _ hmemory hrest =>
      obtain ⟨node, rfl⟩ := hmemory (by decide +kernel)
      cases hrest
      have hthree : quantityGet ((qty .bytes 1).insert .count 3) .count = 3 := by decide +kernel
      refine hunits ⟨node, (qty .bytes 1).insert .count 3⟩ ?_ hthree
      rw [hgroups]
      simp

end Grants
end Archon.Kernel
