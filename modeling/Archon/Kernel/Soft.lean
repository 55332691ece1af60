import Archon.Kernel.Search

/-! Soft inputs. Observed health, data and preferences rank candidates and remove
none of them, so they decide whether a request is granted only where greedy
selection can meet a dead end and no search makes up for it. -/
namespace Archon.Kernel
open Fallible Select

/-- The same resources, observed otherwise. -/
def Graph.observed (graph : Graph) (observations : OrdMap NodeId Attrs) : Graph :=
  { graph with observations }

/-- The same request with other data and preferences. -/
def Request.preferring (request : Request) (data : List NodeId) (preferences : List Preference) :
    Request :=
  { request with data, preferences }

section Satisfiable

/-- The constraints name needs, and a selection exists where the request is placed:
need by need, or by the search of a machine when there are constraints. -/
def Satisfiable (graph : Graph) (occupancy : Occupancy) (request : Request)
    (quarantine : List NodeId) : Prop :=
  let ctx := placing graph occupancy request quarantine
  (∀ constraint ∈ request.topology, constraint.left < request.needs.length ∧
    constraint.right < request.needs.length) ∧
  if request.machineLocal ∧ 1 < request.needs.length then
    ∃ machine ∈ graph.nodesOfClass .machine, isBlocked graph quarantine machine = false ∧
      ∃ groups, topologyHolds graph groups request ∧
        List.Forall₂ (Serves ctx (some (machine :: graph.descendants machine))) request.needs groups ∧
        (request.topology = [] →
          List.Forall₂ (Takes ctx (some (machine :: graph.descendants machine))) request.needs groups)
  else ∃ groups, topologyHolds graph groups request ∧
    List.Forall₂ (Takes ctx none) request.needs groups

variable {graph : Graph} {occupancy : Occupancy} {request : Request} {quarantine : List NodeId}

theorem satisfiable_of_select {allocation : Allocation}
    (h : select graph occupancy request quarantine = .ok allocation) :
    Satisfiable graph occupancy request quarantine := by
  refine ⟨(select_placed h).2, ?_⟩
  by_cases hlocal : request.machineLocal ∧ 1 < request.needs.length
  · rw [if_pos hlocal]
    obtain ⟨machine, hmachine, hclear, groups, hanswers, htakes⟩ :=
      select_onMachine h hlocal.1 hlocal.2
    exact ⟨machine, hmachine, hclear, groups, hanswers.holds, hanswers.served, htakes⟩
  · rw [if_neg hlocal]
    obtain ⟨groups, hanswers, htakes⟩ := select_across h hlocal
    exact ⟨groups, hanswers.holds, htakes⟩

end Satisfiable

/-! What was traced does not bear on a search. -/

namespace Select.MachineSearch
variable {ctx : SelectCtx} {α β : Type}

/-- Two searches that differ only in what they traced. -/
def Alike (search other : MachineSearch) : Prop :=
  search.remaining = other.remaining ∧ search.picked = other.picked

/-- The program ends alike from searches that are alike. -/
def Untraced (program : SearchM α) : Prop :=
  ∀ search other, Alike search other → ∀ a ended, program search = .ok a ended →
    ∃ otherEnded, program other = .ok a otherEnded ∧ Alike ended otherEnded

theorem untraced_pure (a : α) : Untraced (pure a) := by
  rintro search other halike _ _ ⟨⟩
  exact ⟨other, rfl, halike⟩

theorem Untraced.bind {program : SearchM α} {next : α → SearchM β} (h : Untraced program)
    (hnext : ∀ a, Untraced (next a)) : Untraced (program >>= next) := by
  intro search other halike b ended hended
  obtain ⟨a, between, hbetween, hended⟩ := bind_ok.mp hended
  obtain ⟨otherBetween, hother, halike⟩ := h search other halike a between hbetween
  obtain ⟨otherEnded, hother', halike⟩ := hnext a between otherBetween halike b ended hended
  exact ⟨otherEnded, bind_ok.mpr ⟨a, otherBetween, hother, hother'⟩, halike⟩

theorem untraced_get_bind {next : MachineSearch → SearchM α} (hnext : ∀ search, Untraced (next search))
    (hsame : ∀ search other, Alike search other → next search = next other) :
    Untraced (get >>= next) := by
  intro search other halike a ended hended
  obtain ⟨_, _, hget, hended⟩ := bind_ok.mp hended
  cases hget
  obtain ⟨otherEnded, hother, halike'⟩ := hnext search search other halike a ended hended
  rw [hsame search other halike] at hother
  exact ⟨otherEnded, bind_ok.mpr ⟨other, other, rfl, hother⟩, halike'⟩

theorem untraced_modify {f : MachineSearch → MachineSearch}
    (h : ∀ search other, Alike search other → Alike (f search) (f other)) : Untraced (modify f) := by
  rintro search other halike _ _ ⟨⟩
  exact ⟨f other, rfl, h search other halike⟩

theorem untraced_attempt (check : Except Error α) : Untraced (attempt check) := by
  intro search other halike a ended hended
  obtain ⟨hcheck, rfl⟩ := attempt_ok.mp hended
  exact ⟨other, attempt_ok.mpr ⟨hcheck, rfl⟩, halike⟩

theorem untraced_ite {condition : Prop} [Decidable condition] {yes no : SearchM α}
    (hyes : Untraced yes) (hno : Untraced no) : Untraced (if condition then yes else no) := by
  split
  · exact hyes
  · exact hno

theorem untraced_consume : Untraced consume := by
  have hspend : Untraced (modify fun self : MachineSearch =>
      { self with remaining := self.remaining - 1 }) :=
    untraced_modify fun _ _ halike => ⟨congrArg (· - 1) halike.1, halike.2⟩
  refine untraced_get_bind (fun _ => untraced_ite (untraced_pure false) ?_) fun search other halike => ?_
  · exact hspend.bind fun _ => untraced_pure true
  · rw [halike.1]

theorem untraced_pick (index : Nat) (claims : List Claim) : Untraced (pick index claims) :=
  untraced_modify fun _ _ halike => ⟨halike.1, by rw [halike.2]⟩

theorem untraced_holdsTraced : Untraced (holdsTraced ctx) := by
  rintro search other ⟨hremaining, hpicked⟩ holds ended hended
  cases hended
  refine ⟨{ other with trace := traceTopology ctx.graph other.picked ctx.request other.trace }, ?_,
    hremaining, hpicked⟩
  rw [hpicked]
  rfl

theorem untraced_try {check : Except Error Bool} {index : Nat} {claims undo : List Claim}
    {next other : SearchM Bool} (hnext : Untraced next) (hother : Untraced other) : Untraced (do
      let budgeted ← consume
      if budgeted then
        let covered ← attempt check
        if covered then
          pick index claims
          let holds ← holdsTraced ctx
          let done ← if holds then next else pure false
          if done then
            return true
          else do
            pick index undo
            other
        else
          other
      else
        return false) := by
  refine untraced_consume.bind fun budgeted => untraced_ite ?_ (untraced_pure false)
  refine (untraced_attempt check).bind fun covered => untraced_ite ?_ hother
  refine (untraced_pick index claims).bind fun _ => untraced_holdsTraced.bind fun holds => ?_
  have hrest : ∀ done : Bool, Untraced (if done then pure true else do
      pick index undo
      other) :=
    fun done => untraced_ite (untraced_pure true) ((untraced_pick index undo).bind fun _ => hother)
  exact untraced_ite (hnext.bind hrest) ((untraced_pure false).bind hrest)

variable {index : Nat} {next : SearchM Bool}

theorem untraced_tryWhole (wanted : Quantity) (hnext : Untraced next) (ranked : List NodeId) :
    Untraced (tryWhole ctx index wanted next ranked) := by
  induction ranked with
  | nil => exact untraced_pure false
  | cons node rest ih => exact untraced_try hnext ih

theorem untraced_group (count : UInt64) (hnext : Untraced next) (chosen : List Claim)
    (ranked : List NodeId) : Untraced (group ctx index count next chosen ranked) := by
  induction ranked generalizing chosen with
  | nil => exact untraced_ite hnext (untraced_pure false)
  | cons node rest ih => exact untraced_ite hnext (untraced_try (ih _) (ih _))

theorem untraced_needs (allowed : List NodeId) (needs : List Need) :
    Untraced (MachineSearch.needs ctx allowed index needs) := by
  induction needs generalizing index with
  | nil => exact untraced_holdsTraced
  | cons need rest ih =>
    refine untraced_get_bind (fun search => (untraced_attempt _).bind fun found =>
      untraced_ite (untraced_pure false) ?_) fun search other halike => ?_
    · refine (untraced_attempt _).bind fun ranked => untraced_ite ?_ ?_
      · exact untraced_tryWhole _ ih ranked
      · exact untraced_group _ ih [] ranked
    · rw [halike.2]

end Select.MachineSearch

/-! A search that has a selection to find and does not run out of its budget. -/

section Attainable

/-- Where the search of a machine finds no selection it has budget left. -/
def SearchEnds (ctx : SelectCtx) (allowed : List NodeId) : Prop :=
  ∀ ended, MachineSearch.needs ctx allowed 0 ctx.request.needs
    ⟨⟨∅⟩, MachineSearch.fallbackSearchBudget, ctx.request.needs.map fun _ => []⟩ = .ok false ended →
    0 < ended.remaining

theorem searchEnds_of_found {ctx : SelectCtx} {allowed : List NodeId}
    (h : (match MachineSearch.needs ctx allowed 0 ctx.request.needs
        ⟨⟨∅⟩, MachineSearch.fallbackSearchBudget, ctx.request.needs.map fun _ => []⟩ with
      | .ok found _ => found
      | .error _ _ => false) = true) : SearchEnds ctx allowed := by
  intro ended hended
  rw [hended] at h
  cases h

/-- Where the request is placed greedy selection cannot get stuck, or else a search
that does not run out of its budget has a selection to find. -/
def Attainable (graph : Graph) (occupancy : Occupancy) (request : Request)
    (quarantine : List NodeId) : Prop :=
  let ctx := placing graph occupancy request quarantine
  if request.machineLocal ∧ 1 < request.needs.length then
    ∃ machine ∈ graph.nodesOfClass .machine, isBlocked graph quarantine machine = false ∧
      (NeverStuck ctx (some (machine :: graph.descendants machine)) ∨
        request.topology ≠ [] ∧ SearchEnds ctx (machine :: graph.descendants machine) ∧
          ∃ groups, topologyHolds graph groups request ∧ List.Forall₂
            (Serves ctx (some (machine :: graph.descendants machine))) request.needs groups)
  else NeverStuck ctx none

variable {graph : Graph} {occupancy : Occupancy} {request : Request} {quarantine : List NodeId}

theorem candidates_of_serves {ctx : SelectCtx} {allowed : Option (List NodeId)}
    {groups : List (List Claim)} (h : List.Forall₂ (Serves ctx allowed) ctx.request.needs groups) :
    ∀ need ∈ ctx.request.needs, ∃ found,
      candidates ctx.graph ctx.occupancy need ctx.quarantine = .ok found := by
  intro need hneed
  obtain ⟨group, -, hserves⟩ := forall₂_mem_left h hneed
  obtain ⟨claim, hclaim⟩ := hserves.claim
  obtain ⟨found, hfound, -⟩ := hserves.candidate claim hclaim
  exact ⟨found, hfound⟩

/-- A search that does not run out finds a selection if there is one. -/
theorem reaches_searchMachine {ctx : SelectCtx} {allowed : List NodeId} {groups : List (List Claim)}
    (hends : SearchEnds ctx allowed) (hholds : topologyHolds ctx.graph groups ctx.request)
    (hserves : List.Forall₂ (Serves ctx (some allowed)) ctx.request.needs groups)
    (trace : TopologyTrace) :
    Reaches trace (searchMachine ctx allowed) fun found _ => found.isSome := by
  let start : MachineSearch :=
    ⟨trace, MachineSearch.fallbackSearchBudget, ctx.request.needs.map fun _ => []⟩
  obtain ⟨done, ended, hended⟩ := @MachineSearch.total_needs ctx allowed 0 _
    (candidates_of_serves hserves) start
  cases done with
  | true => exact ⟨some ended.picked, ended.trace, by simp only [searchMachine, start, hended], rfl⟩
  | false =>
    have htried := @MachineSearch.tried_needs ctx allowed ctx.request.needs [] start rfl false ended
      hended
    obtain ⟨fresh, hfresh, hleft, -⟩ := MachineSearch.untraced_needs allowed ctx.request.needs start
      { start with trace := ⟨∅⟩ } ⟨rfl, rfl⟩ false ended hended
    refine absurd hholds (htried.exhausted rfl (hleft ▸ hends fresh hfresh) groups ⟨groups, ?_, rfl⟩)
    exact hserves.imp fun _ _ => MachineSearch.assigned_of_serves

/-- What is attainable is granted. -/
theorem select_of_attainable (h : Attainable graph occupancy request quarantine)
    (hnames : ∀ constraint ∈ request.topology, constraint.left < request.needs.length ∧
      constraint.right < request.needs.length) :
    ∃ allocation, select graph occupancy request quarantine = .ok allocation := by
  unfold Attainable at h
  dsimp only at h
  by_cases hlocal : request.machineLocal ∧ 1 < request.needs.length
  · rw [if_pos hlocal] at h
    obtain ⟨machine, hmachine, hclear, hstuck | ⟨htopology, hends, groups, hholds, hserves⟩⟩ := h
    · exact select_of_notPassedOver hlocal (candidates_of_neverStuck hstuck)
        ⟨machine, hmachine, hclear, hstuck.notPassedOver⟩ hnames
    · exact select_of_notPassedOver hlocal (candidates_of_serves hserves)
        ⟨machine, hmachine, hclear, .inr ⟨htopology, reaches_searchMachine hends hholds hserves⟩⟩ hnames
  · rw [if_neg hlocal] at h
    refine select_of_unfailing ?_ hnames
    rw [Unfailing, if_neg hlocal]
    exact h

end Attainable

/-! What selection may do is the same whatever the soft inputs are. -/

namespace Select
variable {graph : Graph} {occupancy : Occupancy} {request : Request} {quarantine : List NodeId}
  {mode : PackMode} {allowed : Option (List NodeId)} {need : Need} {group : List Claim}
  (observations : OrdMap NodeId Attrs) (data : List NodeId) (preferences : List Preference)
  (mode' : PackMode)

theorem Serves.soft (h : Serves ⟨graph, occupancy, request, mode, quarantine⟩ allowed need group) :
    Serves ⟨graph.observed observations, occupancy, request.preferring data preferences, mode',
      quarantine⟩ allowed need group :=
  ⟨h.whole, h.units, h.candidate, h.within⟩

theorem Takes.soft (h : Takes ⟨graph, occupancy, request, mode, quarantine⟩ allowed need group) :
    Takes ⟨graph.observed observations, occupancy, request.preferring data preferences, mode',
      quarantine⟩ allowed need group :=
  ⟨h.serves.soft observations data preferences mode', h.together⟩

end Select

section Soft
variable {graph : Graph} {occupancy : Occupancy} {request : Request} {quarantine : List NodeId}
  (observations : OrdMap NodeId Attrs) (data : List NodeId) (preferences : List Preference)

theorem Satisfiable.soft (h : Satisfiable graph occupancy request quarantine) :
    Satisfiable (graph.observed observations) occupancy (request.preferring data preferences)
      quarantine := by
  obtain ⟨hnames, h⟩ := h
  refine ⟨hnames, ?_⟩
  by_cases hlocal : request.machineLocal ∧ 1 < request.needs.length
  · rw [if_pos hlocal] at h
    rw [if_pos (show (request.preferring data preferences).machineLocal ∧
      1 < (request.preferring data preferences).needs.length from hlocal)]
    obtain ⟨machine, hmachine, hclear, groups, hholds, hserved, htakes⟩ := h
    exact ⟨machine, hmachine, hclear, groups, hholds, hserved.imp fun _ _ h => h.soft ..,
      fun hfree => (htakes hfree).imp fun _ _ h => h.soft ..⟩
  · rw [if_neg hlocal] at h
    rw [if_neg (show ¬((request.preferring data preferences).machineLocal ∧
      1 < (request.preferring data preferences).needs.length) from hlocal)]
    obtain ⟨groups, hholds, htakes⟩ := h
    exact ⟨groups, hholds, htakes.imp fun _ _ h => h.soft ..⟩

/-- Two runs of placement that differ in soft inputs only are both granted or both
refused, where nothing can be selected or where what can be is attained in both. -/
theorem soft_inputs_agree (observations observations' : OrdMap NodeId Attrs)
    (data data' : List NodeId) (preferences preferences' : List Preference)
    (h : ¬Satisfiable graph occupancy request quarantine ∨
      Attainable (graph.observed observations) occupancy (request.preferring data preferences)
          quarantine ∧
        Attainable (graph.observed observations') occupancy (request.preferring data' preferences')
          quarantine) :
    (∃ allocation, select (graph.observed observations) occupancy
      (request.preferring data preferences) quarantine = .ok allocation) ↔
    ∃ allocation, select (graph.observed observations') occupancy
      (request.preferring data' preferences') quarantine = .ok allocation := by
  have hsatisfiable : ∀ observations data preferences, (∃ allocation,
      select (graph.observed observations) occupancy (request.preferring data preferences)
        quarantine = .ok allocation) → Satisfiable graph occupancy request quarantine := by
    rintro observations data preferences ⟨allocation, hselect⟩
    exact (satisfiable_of_select hselect).soft graph.observations request.data request.preferences
  rcases h with hnone | ⟨hfirst, hsecond⟩
  · exact ⟨fun hgranted => absurd (hsatisfiable _ _ _ hgranted) hnone,
      fun hgranted => absurd (hsatisfiable _ _ _ hgranted) hnone⟩
  · constructor
    · rintro ⟨allocation, hselect⟩
      exact select_of_attainable hsecond (select_placed hselect).2
    · rintro ⟨allocation, hselect⟩
      exact select_of_attainable hfirst (select_placed hselect).2

end Soft

/-- The gpus as they stand, and a constraint beside the needs. -/
def Sample.searchedRequest : Request :=
  { Sample.modelRequest with topology := [⟨0, 1, .sameAncestor .machine⟩] }

/-- The gpus answer the needs the other way round. -/
theorem searched_request_attainable {observations : OrdMap NodeId Attrs}
    (hends : SearchEnds (placing (Sample.gpuPairGraph.observed observations) ⟨∅⟩
      Sample.searchedRequest []) (1 :: Sample.gpuPairGraph.descendants 1)) :
    Attainable (Sample.gpuPairGraph.observed observations) ⟨∅⟩ Sample.searchedRequest [] := by
  have hmachine : (1 : NodeId) ∈ Sample.gpuPairGraph.nodesOfClass .machine ∧
      isBlocked Sample.gpuPairGraph [] 1 = false := by
    decide +kernel
  have hholds : topologyHolds Sample.gpuPairGraph [[⟨3, qty .count 1⟩], [⟨2, qty .count 1⟩]]
      Sample.searchedRequest := by
    decide +kernel
  have hcandidates : candidates Sample.gpuPairGraph ⟨∅⟩ ⟨.gpu, qty .count 1, []⟩ [] = .ok [2, 3] ∧
      candidates Sample.gpuPairGraph ⟨∅⟩ ⟨.gpu, qty .count 1, [⟨"model", "a"⟩]⟩ [] = .ok [2] := by
    decide +kernel
  have hwithin : ∀ node ∈ [2, 3], node ∈ 1 :: Sample.gpuPairGraph.descendants 1 := by decide +kernel
  have hserves : ∀ need node found, isConsumableNeed need = false → unitCount need = 1 →
      candidates Sample.gpuPairGraph ⟨∅⟩ need [] = .ok found → node ∈ found → node ∈ [2, 3] →
      Serves (placing (Sample.gpuPairGraph.observed observations) ⟨∅⟩ Sample.searchedRequest [])
        (some (1 :: Sample.gpuPairGraph.descendants 1)) need [⟨node, qty .count 1⟩] := by
    intro need node found hcountable hunits hfound hmem hnode
    refine serves_units hcountable hfound (by rw [hunits]; rfl) fun claim hclaim => ?_
    rw [List.mem_singleton.mp hclaim]
    exact ⟨hmem, by simpa using hwithin node hnode, rfl⟩
  have hseveral : Sample.searchedRequest.machineLocal ∧ 1 < Sample.searchedRequest.needs.length := by
    decide
  unfold Attainable
  rw [if_pos hseveral]
  refine ⟨1, hmachine.1, hmachine.2, .inr ⟨by decide, hends, _, hholds, ?_⟩⟩
  refine .cons (hserves _ 3 _ ?_ ?_ hcandidates.1 (by decide) (by decide))
    (.cons (hserves _ 2 _ ?_ ?_ hcandidates.2 (by decide) (by decide)) .nil) <;> decide +kernel

/-- The search of the gpus ends whether the gpu of the model is degraded or not. -/
theorem searched_request_soft :
    (∃ allocation, select (Sample.gpuPairGraph.observed ∅) ⟨∅⟩
      (Sample.searchedRequest.preferring [] []) [] = .ok allocation) ↔
    ∃ allocation, select (Sample.gpuPairGraph.observed
        ((∅ : OrdMap NodeId Attrs).insert 2 ((∅ : Attrs).insert "health" "degraded"))) ⟨∅⟩
      (Sample.searchedRequest.preferring [] []) [] = .ok allocation := by
  refine soft_inputs_agree _ _ _ _ _ _ (.inr ⟨?_, ?_⟩)
  · exact searched_request_attainable (searchEnds_of_found (by decide +kernel))
  · exact searched_request_attainable (searchEnds_of_found (by decide +kernel))

/-- The request that both gpus answer is refused unless the gpu of the model is
degraded. -/
theorem degraded_gpu_admits_request :
    ¬∀ (graph : Graph) (occupancy : Occupancy) (request : Request) (quarantine : List NodeId)
      (observations observations' : OrdMap NodeId Attrs), graph.Filed →
      ((∃ allocation, select (graph.observed observations) occupancy request quarantine =
          .ok allocation) ↔
        ∃ allocation, select (graph.observed observations') occupancy request quarantine =
          .ok allocation) := by
  intro h
  have hrefused : (select (Sample.gpuPairGraph.observed ∅) ⟨∅⟩ Sample.modelRequest []).toOption =
      none := by
    decide +kernel
  have hgranted : (select (Sample.gpuPairGraph.observed
      ((∅ : OrdMap NodeId Attrs).insert 2 ((∅ : Attrs).insert "health" "degraded"))) ⟨∅⟩
      Sample.modelRequest []).toOption.isSome := by
    decide +kernel
  obtain ⟨allocation, hallocation⟩ := Option.isSome_iff_exists.mp hgranted
  obtain ⟨other, hother⟩ := (h Sample.gpuPairGraph ⟨∅⟩ Sample.modelRequest [] _ _
    (Cluster.filed_run Sample.gpuPair)).mpr ⟨allocation, ok_of_toOption hallocation⟩
  rw [hother] at hrefused
  cases hrefused

end Archon.Kernel
