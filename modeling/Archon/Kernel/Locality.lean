import Archon.Kernel.Suitable

/-! Whether a local request lands on one machine. Several needs are placed below
one machine, however the machines below it nest; units of one need are grouped by
their nearest machine; a need for a whole amount takes any node. -/
namespace Archon.Kernel
open Fallible Select

/-- The claims have one nearest machine. -/
def OnOneMachine (graph : Graph) (claims : List Claim) : Prop :=
  ∃ machine, ∀ claim ∈ claims, graph.machineOf claim.node = some machine

/-- One group for each need, below the machine, as needs and constraints ask. -/
structure SelectionBelow (graph : Graph) (occupancy : Occupancy) (request : Request)
    (quarantine : List NodeId) (machine : NodeId) (groups : List (List Claim)) : Prop where
  asked : List.Forall₂ (fun need group => GroupFor need group ∧
    ∀ claim ∈ group, Suits graph occupancy quarantine need claim) request.needs groups
  below : ∀ claim ∈ groups.flatten, claim.node ∈ machine :: graph.descendants machine
  distinct : DistinctNodes groups.flatten
  related : ∀ constraint ∈ request.topology, Relates graph groups constraint

/-- The node suits a request for this whole amount and nothing else. -/
structure SuitsAlone (graph : Graph) (occupancy : Occupancy) (request : Request)
    (quarantine : List NodeId) (need : Need) (node : NodeId) : Prop where
  claimable : need.kind ≠ .dataObject
  suits : Suits graph occupancy quarantine need ⟨node, consumableQuantity need⟩
  related : ∀ constraint ∈ request.topology,
    Relates graph [[⟨node, consumableQuantity need⟩]] constraint

/-- The score of a node when nothing is picked yet. -/
def scoreAlone (graph : Graph) (occupancy : Occupancy) (request : Request)
    (quarantine : List NodeId) (need : Need) (node : NodeId) : Except Error Int :=
  let ctx : SelectCtx := ⟨graph, occupancy, request, packMode request, quarantine⟩
  scoreNode (ctx.score [] (quantityGet (consumableQuantity need) .bytes)) [] node

/-- The eligible node that ranks before every other. -/
structure RankedFirst (graph : Graph) (occupancy : Occupancy) (request : Request)
    (quarantine : List NodeId) (need : Need) (node : NodeId) : Prop where
  eligible : SuitsAlone graph occupancy request quarantine need node
  first : ∀ other, SuitsAlone graph occupancy request quarantine need other → ∀ score otherScore,
    scoreAlone graph occupancy request quarantine need node = .ok score →
    scoreAlone graph occupancy request quarantine need other = .ok otherScore →
    ranksBefore (score, node) (otherScore, other)

/-- The node for one whole amount is below a machine; of several needs, every
selection below an open machine has one nearest machine. -/
structure OneMachine (graph : Graph) (occupancy : Occupancy) (request : Request)
    (quarantine : List NodeId) : Prop where
  whole : ∀ need node, request.needs = [need] → isConsumableNeed need →
    RankedFirst graph occupancy request quarantine need node → graph.machineOf node ≠ none
  several : 1 < request.needs.length → ∀ machine ∈ graph.nodesOfClass .machine,
    isBlocked graph quarantine machine = false → ∀ groups,
    SelectionBelow graph occupancy request quarantine machine groups →
      OnOneMachine graph groups.flatten

/-! The rank order. -/

namespace Select

theorem compare_isLE_total (a b : NodeId) : (compare a b).isLE ∨ (compare b a).isLE := by
  rw [@Std.OrientedCmp.eq_swap _ compare _ b a]
  cases compare a b <;> simp

theorem ranksBefore_total (left right : Int × NodeId) :
    ranksBefore left right ∨ ranksBefore right left := by
  unfold ranksBefore
  rcases lt_trichotomy left.1 right.1 with hlt | heq | hgt
  · exact .inr (.inl hlt)
  · exact (compare_isLE_total left.2 right.2).imp (fun h => .inr ⟨heq, h⟩) fun h => .inr ⟨heq.symm, h⟩
  · exact .inl (.inl hgt)

theorem ranksBefore_trans {a b c : Int × NodeId} (hab : ranksBefore a b) (hbc : ranksBefore b c) :
    ranksBefore a c := by
  rcases hab with hab | ⟨hscore, hab⟩
  · rcases hbc with hbc | ⟨hscore, -⟩
    · exact .inl (hbc.trans hab)
    · exact .inl (hscore ▸ hab)
  · rcases hbc with hbc | ⟨hscore', hbc⟩
    · exact .inl (hscore ▸ hbc)
    · exact .inr ⟨hscore.trans hscore', Std.TransCmp.isLE_trans hab hbc⟩

theorem ranksBefore_antisymm {a b : Int × NodeId} (hab : ranksBefore a b) (hba : ranksBefore b a) :
    a.2 = b.2 := by
  rcases hab with hab | ⟨hscore, hab⟩
  · rcases hba with hba | ⟨hscore, -⟩
    · exact absurd hba hab.asymm
    · exact absurd hab (hscore ▸ lt_irrefl _)
  · rcases hba with hba | ⟨-, hba⟩
    · exact absurd hba (hscore ▸ lt_irrefl _)
    · exact Std.LawfulEqCmp.eq_of_compare (Std.OrientedCmp.isLE_antisymm hab hba)

instance : IsTrans (Int × NodeId) ranksBefore := ⟨fun _ _ _ => ranksBefore_trans⟩
instance : Std.Total (α := Int × NodeId) ranksBefore := ⟨ranksBefore_total⟩

theorem pairwise_rank {scoring : ScoreCtx} {chosen : List Claim} {found ranked : List NodeId}
    (h : rank scoring chosen found = .ok ranked) :
    ranked.Pairwise fun node other => ∀ score otherScore,
      scoreNode scoring chosen node = .ok score → scoreNode scoring chosen other = .ok otherScore →
      ranksBefore (score, node) (otherScore, other) := by
  simp only [rank, check_bind_ok, check_pure_ok] at h
  obtain ⟨scored, hscored, rfl⟩ := h
  have hscore : ∀ entry ∈ scored, scoreNode scoring chosen entry.2 = .ok entry.1 := by
    rw [mapM_ok] at hscored
    intro entry hentry
    obtain ⟨node, -, hnode⟩ := forall₂_mem_right hscored hentry
    simp only [check_bind_ok, check_pure_ok] at hnode
    obtain ⟨score, hscore, rfl⟩ := hnode
    exact hscore
  rw [List.pairwise_map]
  refine (List.pairwise_insertionSort ranksBefore scored).imp_of_mem ?_
  intro entry other hentry hother hranks score otherScore hfirst hsecond
  rw [hscore entry (List.mem_insertionSort ranksBefore |>.mp hentry)] at hfirst
  rw [hscore other (List.mem_insertionSort ranksBefore |>.mp hother)] at hsecond
  cases hfirst
  cases hsecond
  exact hranks

theorem yields_takeWhole_first (scoring : ScoreCtx) {wanted : Quantity} {ranked : List NodeId}
    (hcover : ∀ node ∈ ranked, scoring.occupancy.canCover scoring.graph ⟨node, wanted⟩ = .ok true)
    (trace : TopologyTrace) :
    Yields trace (takeWhole scoring wanted ranked) fun result _ => ∀ taken, result = some taken →
      ∃ before node later, ranked = before ++ node :: later ∧ taken.1 = [⟨node, wanted⟩] ∧
        topologyHolds scoring.graph (scoring.already ++ [[⟨node, wanted⟩]]) scoring.request ∧
        ∀ other ∈ before,
          ¬topologyHolds scoring.graph (scoring.already ++ [[⟨other, wanted⟩]]) scoring.request := by
  induction ranked generalizing trace with
  | nil => simp [takeWhole]
  | cons node rest ih =>
    simp only [takeWhole, topologyHoldsTraced, bind_assoc, pure_bind, yields_attempt_bind, yields_ite,
      yields_modify_bind, yields_pure]
    intro covered hcovered
    have hyes : covered = true := by
      rw [hcover node List.mem_cons_self] at hcovered
      exact (Except.ok.inj hcovered).symm
    refine ⟨fun _ => ⟨fun hholds score _ => ?_, fun hbroken => ?_⟩, fun hno => absurd hyes hno⟩
    · rintro taken ⟨⟩
      exact ⟨[], node, rest, rfl, rfl, hholds, by simp⟩
    · intro result t hresult taken htaken
      obtain ⟨before, first, later, rfl, hclaims, hholds, hbefore⟩ :=
        ih (fun other hother => hcover other (List.mem_cons_of_mem _ hother)) _ result t hresult taken
          htaken
      refine ⟨node :: before, first, later, rfl, hclaims, hholds, fun other hother => ?_⟩
      rcases List.mem_cons.mp hother with rfl | hother
      · exact hbroken
      · exact hbefore other hother

/-- A first need for a whole amount takes the node that ranks first. -/
theorem yields_selectNeedIn_first {ctx : SelectCtx} {need : Need}
    (hconsumable : isConsumableNeed need) (trace : TopologyTrace) :
    Yields trace (selectNeedIn ctx need [] none) fun taken _ => ∃ node,
      taken.1 = [⟨node, consumableQuantity need⟩] ∧ Offered ctx none need node ∧
      topologyHolds ctx.graph [[⟨node, consumableQuantity need⟩]] ctx.request ∧
      ∀ other, Offered ctx none need other →
        topologyHolds ctx.graph [[⟨other, consumableQuantity need⟩]] ctx.request →
        other = node ∨ ∀ score otherScore,
          scoreNode (ctx.score [] (quantityGet (consumableQuantity need) .bytes)) [] node = .ok score →
          scoreNode (ctx.score [] (quantityGet (consumableQuantity need) .bytes)) [] other =
            .ok otherScore → ranksBefore (score, node) (otherScore, other) := by
  unfold selectNeedIn
  simp only [yields_attempt_bind, yields_ite]
  intro found hfound _ _
  refine ⟨fun _ _ _ ranked hranked => ?_, fun hcountable => absurd hconsumable hcountable⟩
  have hmem : ∀ {node}, node ∈ ranked ↔ node ∈ found := by
    intro node
    rw [mem_rank hranked]
    simp
  have hunit : needUnit need = consumableQuantity need := if_pos hconsumable
  have hcover : ∀ node ∈ ranked, ctx.occupancy.canCover ctx.graph ⟨node, consumableQuantity need⟩ =
      .ok true := by
    intro node hnode
    rw [← hunit]
    exact (candidate_known hfound node (hmem.mp hnode)).2.1
  refine yields_bind (yields_takeWhole_first _ hcover _) fun taken t htaken result u hresult => ?_
  simp only [attempt_ok, okOr_ok] at hresult
  obtain ⟨before, node, later, hsplit, hclaims, hholds, hbefore⟩ := htaken _ hresult.1
  have hnode : node ∈ ranked := hsplit ▸ by simp
  refine ⟨node, hclaims, ⟨found, hfound, hmem.mp hnode, by simp⟩, hholds, fun other hother hadmits => ?_⟩
  have hlisted : other ∈ before ++ node :: later := hsplit ▸ hmem.mpr (mem_of_offered hfound hother)
  rcases List.mem_append.mp hlisted with hearlier | hlisted
  · exact absurd hadmits (hbefore other hearlier)
  rcases List.mem_cons.mp hlisted with rfl | hlater
  · exact .inl rfl
  · have hsorted := pairwise_rank hranked
    rw [hsplit] at hsorted
    exact .inr (List.rel_of_pairwise_cons (List.pairwise_append.mp hsorted).2.1 hlater)

end Select

/-! One request. -/

section Request
variable {graph : Graph} {occupancy : Occupancy} {request : Request} {quarantine : List NodeId}
  {need : Need} {node : NodeId}

/-- The context in which a request is placed. -/
abbrev placing (graph : Graph) (occupancy : Occupancy) (request : Request)
    (quarantine : List NodeId) : SelectCtx :=
  ⟨graph, occupancy, request, packMode request, quarantine⟩

/-- Where its constraints name needs, an eligible node is one that is offered and admitted. -/
theorem suitsAlone_iff (hfiled : graph.Filed) (hconsumable : isConsumableNeed need)
    (hnames : ∀ constraint ∈ request.topology, constraint.left < 1 ∧ constraint.right < 1) :
    SuitsAlone graph occupancy request quarantine need node ↔
      Offered (placing graph occupancy request quarantine) none need node ∧
        topologyHolds graph [[⟨node, consumableQuantity need⟩]] request := by
  have hunit : needUnit need = consumableQuantity need := if_pos hconsumable
  rw [offered_iff hfiled, hunit]
  constructor
  · rintro ⟨hkind, hsuits, hrelated⟩
    refine ⟨⟨hkind, hsuits, by simp⟩, topologyHolds_iff.mpr ⟨by simp [pickedNodes], ?_⟩⟩
    intro constraint hconstraint lefts rights hlefts hrights l hl r hr
    obtain ⟨lefts', rights', hlefts', hrights', hall⟩ := hrelated constraint hconstraint
    rw [hlefts] at hlefts'
    rw [hrights] at hrights'
    cases hlefts'
    cases hrights'
    exact hall l hl r hr
  · rintro ⟨⟨hkind, hsuits, -⟩, hholds⟩
    refine ⟨hkind, hsuits, fun constraint hconstraint => ?_⟩
    obtain ⟨hleft, hright⟩ := hnames constraint hconstraint
    exact relates_of_holds hholds hconstraint (by simpa using hleft) (by simpa using hright)

theorem select_rankedFirst (hfiled : graph.Filed) {allocation : Allocation}
    (hneeds : request.needs = [need]) (hconsumable : isConsumableNeed need)
    (hselect : select graph occupancy request quarantine = .ok allocation) :
    ∃ node, allocation.claims = [⟨node, consumableQuantity need⟩] ∧
      RankedFirst graph occupancy request quarantine need node := by
  obtain ⟨-, hnames⟩ := select_placed hselect
  rw [hneeds, List.length_singleton] at hnames
  simp only [select, check_bind_ok] at hselect
  obtain ⟨_, -, hselect⟩ := hselect
  rw [if_neg (by simp [hneeds])] at hselect
  obtain ⟨t, hrun⟩ := conclude_ok.mp hselect
  have hfirst : Yields ⟨∅⟩ (selectAcross (placing graph occupancy request quarantine))
      fun allocation _ => ∃ node, allocation.claims = [⟨node, consumableQuantity need⟩] ∧
        RankedFirst graph occupancy request quarantine need node := by
    simp only [selectAcross, hneeds, selectNeeds, bind_assoc]
    refine yields_bind (yields_selectNeedIn_first hconsumable _) fun taken u htaken => ?_
    simp only [pure_bind, yields_attempt_bind, yields_get_bind, yields_pure]
    intro _ _ reasons _
    obtain ⟨node, hclaims, hoffered, hholds, hothers⟩ := htaken
    refine ⟨node, by simp [hclaims], (suitsAlone_iff hfiled hconsumable hnames).mpr ⟨hoffered, hholds⟩, ?_⟩
    intro other hother score otherScore hscore hotherScore
    obtain ⟨hoffers, hadmits⟩ := (suitsAlone_iff hfiled hconsumable hnames).mp hother
    rcases hothers other hoffers hadmits with rfl | hranks
    · rw [hscore] at hotherScore
      cases hotherScore
      exact (ranksBefore_total _ _).elim id id
    · exact hranks score otherScore hscore hotherScore
  exact hfirst allocation t hrun

theorem select_of_rankedFirst (hfiled : graph.Filed) (hneeds : request.needs = [need])
    (hconsumable : isConsumableNeed need)
    (h : RankedFirst graph occupancy request quarantine need node) :
    ∃ allocation, select graph occupancy request quarantine = .ok allocation ∧
      allocation.claims = [⟨node, consumableQuantity need⟩] := by
  have hnames : ∀ constraint ∈ request.topology, constraint.left < 1 ∧ constraint.right < 1 := by
    intro constraint hconstraint
    obtain ⟨left, right, hleft, hright, -⟩ := h.eligible.related constraint hconstraint
    exact ⟨(List.getElem?_eq_some_iff.mp hleft).1, (List.getElem?_eq_some_iff.mp hright).1⟩
  have hunfailing : Unfailing graph occupancy request quarantine := by
    rw [Unfailing, if_neg (by simp [hneeds])]
    intro done other rest picked hsplit htakes _
    obtain ⟨rfl, rfl, rfl⟩ : done = [] ∧ need = other ∧ rest = [] := by
      rw [hneeds] at hsplit
      cases done with
      | nil => simpa [eq_comm] using hsplit
      | cons => simp at hsplit
    cases htakes
    obtain ⟨hoffered, hholds⟩ := (suitsAlone_iff hfiled hconsumable hnames).mp h.eligible
    refine ⟨fun _ => ⟨node, hoffered, hholds⟩, fun hcountable => ?_, fun hcountable => ?_⟩
    · simp [hconsumable] at hcountable
    · simp [hconsumable] at hcountable
  obtain ⟨allocation, hselect⟩ := select_of_unfailing hunfailing (by simpa [hneeds] using hnames)
  obtain ⟨granted, hclaims, hfirst⟩ := select_rankedFirst hfiled hneeds hconsumable hselect
  have hscored : ∀ {node}, SuitsAlone graph occupancy request quarantine need node →
      ∃ score, scoreAlone graph occupancy request quarantine need node = .ok score := by
    intro node halone
    obtain ⟨item, hitem, -⟩ := halone.suits.fits
    exact scoreNode_known [] (show graph.node node ≠ none by simp [hitem])
  obtain ⟨score, hscore⟩ := hscored h.eligible
  obtain ⟨other, hother⟩ := hscored hfirst.eligible
  have hsame : node = granted := ranksBefore_antisymm
    (h.first granted hfirst.eligible score other hscore hother)
    (hfirst.first node h.eligible other score hother hscore)
  exact ⟨allocation, hselect, hsame ▸ hclaims⟩

theorem select_selectionBelow (hfiled : graph.Filed) {allocation : Allocation}
    (hlocal : request.machineLocal) (hneeds : 1 < request.needs.length)
    (hselect : select graph occupancy request quarantine = .ok allocation) :
    ∃ machine ∈ graph.nodesOfClass .machine, isBlocked graph quarantine machine = false ∧
      ∃ groups, allocation.claims = groups.flatten ∧
        SelectionBelow graph occupancy request quarantine machine groups := by
  obtain ⟨machine, hmachine, hclear, groups, hanswers, -⟩ := select_onMachine hselect hlocal hneeds
  obtain ⟨-, hnames⟩ := select_placed hselect
  refine ⟨machine, hmachine, hclear, groups, hanswers.claims, ?_, fun claim hclaim => ?_, ?_, ?_⟩
  · refine hanswers.served.imp fun need group hserves => ⟨groupFor_of_serves hserves, ?_⟩
    intro claim hclaim
    obtain ⟨found, hfound, hmem⟩ := hserves.candidate claim hclaim
    exact suits_of_candidate hfiled hfound hmem (quantity_of_serves hserves claim hclaim)
  · obtain ⟨group, hgroup, hclaim⟩ := List.mem_flatten.mp hclaim
    obtain ⟨need, -, hserves⟩ := forall₂_mem_right hanswers.served hgroup
    exact hserves.within claim hclaim _ rfl
  · exact topologyHolds_distinct hanswers.holds
  · intro constraint hconstraint
    have hlength := hanswers.served.length_eq
    obtain ⟨hleft, hright⟩ := hnames constraint hconstraint
    exact relates_of_holds hanswers.holds hconstraint (hlength ▸ hleft) (hlength ▸ hright)

theorem OneMachine.lands (h : OneMachine graph occupancy request quarantine) (hfiled : graph.Filed)
    (hlocal : request.machineLocal) {allocation : Allocation}
    (hselect : select graph occupancy request quarantine = .ok allocation)
    (hclaims : allocation.claims ≠ []) : OnOneMachine graph allocation.claims := by
  match hneeds : request.needs with
  | [] =>
    obtain ⟨groups, hanswers, -⟩ := select_across hselect (by simp [hneeds])
    have hserved := hanswers.served
    simp only [hneeds, List.forall₂_nil_left_iff] at hserved
    exact absurd (by simp [hanswers.claims, hserved]) hclaims
  | [need] =>
    by_cases hconsumable : isConsumableNeed need
    · obtain ⟨node, hgranted, hfirst⟩ := select_rankedFirst hfiled hneeds hconsumable hselect
      obtain ⟨machine, hmachine⟩ :=
        Option.ne_none_iff_exists'.mp (h.whole need node hneeds hconsumable hfirst)
      exact ⟨machine, by simpa [hgranted] using hmachine⟩
    · obtain ⟨groups, hanswers, htakes⟩ := select_across hselect (by simp [hneeds])
      simp only [hneeds] at htakes
      obtain ⟨group, _, htake, hnil, rfl⟩ := List.forall₂_cons_left_iff.mp htakes
      cases hnil
      rw [hanswers.claims, List.flatten_singleton]
      exact htake.together hlocal (by simpa using hconsumable)
  | first :: second :: rest =>
    have hseveral : 1 < request.needs.length := by simp [hneeds]
    obtain ⟨machine, hmachine, hclear, groups, hgranted, hbelow⟩ :=
      select_selectionBelow hfiled hlocal hseveral hselect
    rw [hgranted]
    exact h.several hseveral machine hmachine hclear groups hbelow

end Request

/-- A local request with these needs and nothing else to ask for. -/
def localRequest (needs : List Need) : Request where
  id := 1
  requestClass := .batch
  needs
  topology := []
  preferences := []
  data := []
  lifetime := 0
  priority := 0
  machineLocal := true

/-- A memory node that no machine contains. -/
def Sample.detachedHost : List Event := [
  .apply (.applyResourceFacts [⟨1, .machine, ∅, ∅⟩, ⟨2, .memory, ∅, qty .bytes 4096⟩] []
    [⟨2, .bytes, some ⟨.enforce, .exclusive⟩⟩])]

theorem mixed_request_local : OneMachine Sample.mixedGraph ⟨∅⟩ Sample.mixedRequest [] := by
  have hkeys : Sample.mixedGraph.nodes.keys = [1, 2, 3] := by decide +kernel
  have hmachine : ∀ node ∈ Sample.mixedGraph.nodes.keys, Sample.mixedGraph.machineOf node = some 1 := by
    rw [hkeys]
    decide +kernel
  refine ⟨fun need node hneeds => by simp [Sample.mixedRequest] at hneeds, ?_⟩
  intro _ machine _ _ groups hbelow
  refine ⟨1, fun claim hclaim => hmachine claim.node ?_⟩
  obtain ⟨group, hgroup, hclaim⟩ := List.mem_flatten.mp hclaim
  obtain ⟨need, -, -, hsuits⟩ := forall₂_mem_right hbelow.asked hgroup
  obtain ⟨item, hitem, -⟩ := (hsuits claim hclaim).fits
  rw [Std.ExtTreeMap.mem_keys, Std.ExtTreeMap.mem_iff_isSome_getElem?, ← Graph.node, hitem]
  rfl

end Archon.Kernel
