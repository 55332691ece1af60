import Archon.Kernel.Grants

/-! When greedy selection cannot fail. It takes the best-ranked node of each need
in turn and never goes back, so it completes whatever the ranks are as long as
no choice for the first needs leaves a later one without nodes. -/
namespace Archon.Kernel
open Fallible

namespace Select
open Archon.Kernel.Cluster

/-! Ranks and explanations never fail on known nodes. -/

section Scores
variable {scoring : ScoreCtx}

theorem scoreNode_known (chosen : List Claim) {node : NodeId}
    (h : scoring.graph.node node ≠ none) : ∃ score, scoreNode scoring chosen node = .ok score := by
  obtain ⟨found, hfound⟩ := Option.ne_none_iff_exists'.mp h
  have hremaining : scoring.occupancy.remaining scoring.graph node =
      .ok (quantitySaturatingSub found.capacity (scoring.occupancy.used[node]?.getD ∅)) := by
    simp only [Occupancy.remaining, check_bind_ok, okOr_ok, check_pure_ok]
    exact ⟨found, hfound, rfl⟩
  unfold scoreNode
  dsimp only
  rw [hremaining]
  split
  · cases scoring.mode <;> exact ⟨_, rfl⟩
  · exact ⟨_, rfl⟩

theorem rank_known {found : List NodeId} (h : ∀ node ∈ found, scoring.graph.node node ≠ none) :
    ∃ ranked, rank scoring [] found = .ok ranked := by
  have hscored : ∃ scored, found.mapM (fun node => do
      let score ← scoreNode scoring [] node
      return (score, node)) = .ok scored := by
    simp only [mapM_ok]
    induction found with
    | nil => exact ⟨[], .nil⟩
    | cons node rest ih =>
      obtain ⟨score, hscore⟩ := scoreNode_known [] (h node List.mem_cons_self)
      obtain ⟨scored, hscored⟩ := ih fun other hother => h other (List.mem_cons_of_mem _ hother)
      refine ⟨(score, node) :: scored, .cons ?_ hscored⟩
      simp only [check_bind_ok, check_pure_ok]
      exact ⟨score, hscore, rfl⟩
  obtain ⟨scored, hscored⟩ := hscored
  simp only [rank, check_bind_ok, check_pure_ok]
  exact ⟨_, scored, hscored, rfl⟩

end Scores

section Reasons
variable {ctx : SelectCtx} {α : Type} {visit : List Claim → Claim → Except Error α}

theorem visitGroup_ok {group chosen : List Claim}
    (h : ∀ chosen, ∀ claim ∈ group, ∃ a, visit chosen claim = .ok a) :
    ∃ visited, visitGroup visit chosen group = .ok visited := by
  induction group generalizing chosen with
  | nil => exact ⟨[], rfl⟩
  | cons claim rest ih =>
    obtain ⟨here, hhere⟩ := h chosen claim List.mem_cons_self
    obtain ⟨more, hmore⟩ := @ih (chosen ++ [claim])
      fun chosen other hother => h chosen other (List.mem_cons_of_mem _ hother)
    simp only [visitGroup, check_bind_ok, check_pure_ok]
    exact ⟨_, here, hhere, more, hmore, rfl⟩

theorem visitPicked_ok {visit : ScoreCtx → List Claim → Claim → Except Error α}
    {groups : List (List Claim × Need)} {already : List (List Claim)}
    (h : ∀ already memoryWant chosen, ∀ group ∈ groups, ∀ claim ∈ group.1,
      ∃ a, visit (ctx.score already memoryWant) chosen claim = .ok a) :
    ∃ visited, visitPicked ctx visit already groups = .ok visited := by
  induction groups generalizing already with
  | nil => exact ⟨[], rfl⟩
  | cons group rest ih =>
    obtain ⟨claims, need⟩ := group
    obtain ⟨here, hhere⟩ := @visitGroup_ok _
      (visit (ctx.score already (quantityGet (consumableQuantity need) .bytes))) claims []
      fun chosen claim hclaim => h _ _ chosen _ List.mem_cons_self claim hclaim
    obtain ⟨more, hmore⟩ := @ih (already ++ [claims])
      fun already memoryWant chosen other hother =>
        h already memoryWant chosen other (List.mem_cons_of_mem _ hother)
    simp only [visitPicked, check_bind_ok, check_pure_ok]
    exact ⟨_, here, hhere, more, hmore, rfl⟩

theorem visitScores_ok {picked : List (List Claim)}
    (h : ∀ group ∈ picked, ∀ claim ∈ group, ctx.graph.node claim.node ≠ none)
    (describe : Claim → Int → α) :
    ∃ visited, visitPicked ctx (fun scoring chosen claim => do
      let score ← scoreNode scoring chosen claim.node
      return describe claim score) [] (picked.zip ctx.request.needs) = .ok visited := by
  refine visitPicked_ok fun already memoryWant chosen group hgroup claim hclaim => ?_
  have hknown := h group.1 (List.of_mem_zip hgroup).1 claim hclaim
  obtain ⟨score, hscore⟩ := @scoreNode_known (ctx.score already memoryWant) chosen _ hknown
  simp only [check_bind_ok, check_pure_ok]
  exact ⟨_, score, hscore, rfl⟩

theorem placementReasons_ok {picked : List (List Claim)} {trace : TopologyTrace}
    (h : ∀ group ∈ picked, ∀ claim ∈ group, ctx.graph.node claim.node ≠ none) :
    ∃ reasons, placementReasons ctx picked trace = .ok reasons := by
  obtain ⟨scores, hscores⟩ := visitScores_ok h fun claim score =>
    PlacementReason.candidateScore claim.node score
      (sortAsc (ctx.request.data.filter fun data => ctx.graph.caches claim.node data).dedup)
      (ctx.graph.degradedAncestor claim.node)
  simp only [placementReasons, check_bind_ok, check_pure_ok]
  exact ⟨_, scores, hscores, rfl⟩

theorem selectionNotes_ok {picked : List (List Claim)}
    (h : ∀ group ∈ picked, ∀ claim ∈ group, ctx.graph.node claim.node ≠ none) :
    ∃ notes, selectionNotes ctx picked = .ok notes :=
  visitScores_ok h fun claim score => selectionNote ctx.graph ctx.request claim.node score

end Reasons

/-! What the constraints say. -/

/-- The nodes of what was picked. -/
def pickedNodes (picked : List (List Claim)) : List NodeId := picked.flatten.map Claim.node

section Holds
variable {graph : Graph} {request : Request} {already : List (List Claim)}

theorem topologyHolds_iff {picked : List (List Claim)} :
    topologyHolds graph picked request ↔ (pickedNodes picked).Nodup ∧
      ∀ constraint ∈ request.topology, ∀ lefts rights, picked[constraint.left]? = some lefts →
        picked[constraint.right]? = some rights →
        ∀ l ∈ lefts, ∀ r ∈ rights, graph.satisfies l.node r.node constraint.relation := by
  simp only [topologyHolds, Bool.and_eq_true, claimsAreUnique, decide_eq_true_eq, topologyFailure,
    Option.isNone_iff_eq_none, List.findSome?_eq_none_iff]
  refine and_congr Iff.rfl ⟨fun h constraint hconstraint lefts rights hlefts hrights l hl r hr => ?_,
    fun h => ?_⟩
  · obtain ⟨index, hindex, hget⟩ := List.mem_iff_getElem.mp hconstraint
    have hnone := h (constraint, index) (List.mem_zipIdx_iff_getElem?.mpr (by simp [hget, hindex]))
    simp only [hlefts, hrights, List.findSome?_eq_none_iff] at hnone
    have hpair := hnone l hl r hr
    by_contra hbroken
    simp [hbroken] at hpair
  · rintro ⟨constraint, index⟩ hentry
    have hconstraint : constraint ∈ request.topology :=
      List.mem_of_getElem? (List.mem_zipIdx_iff_getElem?.mp hentry)
    have hsatisfied := h constraint hconstraint
    dsimp only
    split
    · rename_i lefts rights hlefts hrights
      rw [List.findSome?_eq_none_iff]
      intro l hl
      rw [List.findSome?_eq_none_iff]
      intro r hr
      rw [if_pos (hsatisfied lefts rights hlefts hrights l hl r hr)]
    · rfl

theorem topologyHolds_nil : topologyHolds graph [] request := by
  simp [topologyHolds_iff, pickedNodes]

theorem topologyHolds_free (h : request.topology = []) (picked : List (List Claim)) :
    topologyHolds graph picked request ↔ (pickedNodes picked).Nodup := by
  simp [topologyHolds_iff, h]

theorem topologyHolds_shrink {fewer more : List Claim} (hfewer : fewer.Sublist more)
    (h : topologyHolds graph (already ++ [more]) request) :
    topologyHolds graph (already ++ [fewer]) request := by
  obtain ⟨hdistinct, hsatisfied⟩ := topologyHolds_iff.mp h
  have hget : ∀ (index : Nat) (group : List Claim), (already ++ [fewer])[index]? = some group →
      ∃ larger, (already ++ [more])[index]? = some larger ∧ group.Sublist larger := by
    intro index group hgroup
    rcases Nat.lt_or_ge index already.length with hindex | hindex
    · rw [List.getElem?_append_left hindex] at hgroup ⊢
      exact ⟨group, hgroup, List.Sublist.refl _⟩
    · rw [List.getElem?_append_right hindex] at hgroup ⊢
      obtain ⟨hzero, rfl⟩ : index - already.length = 0 ∧ fewer = group := by
        simpa [List.getElem?_singleton] using hgroup
      exact ⟨more, by simp [hzero], hfewer⟩
  refine topologyHolds_iff.mpr ⟨?_, ?_⟩
  · refine hdistinct.sublist ?_
    simp only [pickedNodes, List.flatten_append, List.flatten_singleton, List.map_append]
    exact List.Sublist.append (List.Sublist.refl _) (hfewer.map _)
  · intro constraint hconstraint lefts rights hlefts hrights l hl r hr
    obtain ⟨lefts', hlefts', hleft⟩ := hget _ _ hlefts
    obtain ⟨rights', hrights', hright⟩ := hget _ _ hrights
    exact hsatisfied constraint hconstraint _ _ hlefts' hrights' l (hleft.subset hl) r (hright.subset hr)

theorem topologyHolds_concat_nil (h : topologyHolds graph already request) :
    topologyHolds graph (already ++ [[]]) request := by
  obtain ⟨hdistinct, hsatisfied⟩ := topologyHolds_iff.mp h
  have hget : ∀ (index : Nat) (group : List Claim), (already ++ [[]])[index]? = some group →
      group = [] ∨ already[index]? = some group := by
    intro index group hgroup
    rcases Nat.lt_or_ge index already.length with hindex | hindex
    · rw [List.getElem?_append_left hindex] at hgroup
      exact .inr hgroup
    · rw [List.getElem?_append_right hindex] at hgroup
      obtain ⟨-, rfl⟩ : index - already.length = 0 ∧ [] = group := by
        simpa [List.getElem?_singleton] using hgroup
      exact .inl rfl
  refine topologyHolds_iff.mpr ⟨by simpa [pickedNodes] using hdistinct, ?_⟩
  intro constraint hconstraint lefts rights hlefts hrights l hl r hr
  rcases hget _ _ hlefts with rfl | hlefts
  · cases hl
  rcases hget _ _ hrights with rfl | hrights
  · cases hr
  exact hsatisfied constraint hconstraint _ _ hlefts hrights l hl r hr

theorem topologyHolds_repeated {chosen : List Claim} {claim : Claim} (hmem : claim ∈ chosen) :
    topologyHolds graph (already ++ [chosen ++ [claim]]) request = false := by
  rw [Bool.eq_false_iff]
  intro h
  have hdistinct := (topologyHolds_iff.mp h).1
  simp only [pickedNodes, List.flatten_append, List.flatten_singleton, List.map_append] at hdistinct
  have hgroup := (List.nodup_append.mp hdistinct).2.1
  exact (List.nodup_append.mp hgroup).2.2 _ (List.mem_map_of_mem hmem) claim.node (by simp) rfl

end Holds

/-! One need. -/

/-- Units taken from eligible nodes can be added to until there are enough. -/
def Grows (graph : Graph) (request : Request) (already : List (List Claim)) (count : Nat)
    (eligible : NodeId → Prop) : Prop :=
  ∀ chosen : List Claim, (∀ claim ∈ chosen, eligible claim.node ∧ claim.quantity = qty .count 1) →
    chosen.length < count → topologyHolds graph (already ++ [chosen]) request →
    ∃ node, eligible node ∧ topologyHolds graph (already ++ [chosen ++ [⟨node, qty .count 1⟩]]) request

section Need
variable {scoring : ScoreCtx} {ranked : List NodeId}

theorem reaches_takeWhole {wanted : Quantity}
    (hknown : ∀ node ∈ ranked, scoring.graph.node node ≠ none)
    (hcover : ∀ node ∈ ranked, scoring.occupancy.canCover scoring.graph ⟨node, wanted⟩ = .ok true)
    (hholds : ∃ node ∈ ranked,
      topologyHolds scoring.graph (scoring.already ++ [[⟨node, wanted⟩]]) scoring.request)
    (trace : TopologyTrace) :
    Reaches trace (takeWhole scoring wanted ranked) fun result _ => ∃ node ∈ ranked,
      topologyHolds scoring.graph (scoring.already ++ [[⟨node, wanted⟩]]) scoring.request ∧
        ∃ notes, result = some ([⟨node, wanted⟩], notes) := by
  induction ranked generalizing trace with
  | nil =>
    obtain ⟨_, hnone, -⟩ := hholds
    cases hnone
  | cons node rest ih =>
    simp only [takeWhole, topologyHoldsTraced, bind_assoc, pure_bind, reaches_attempt_bind]
    refine ⟨true, hcover node List.mem_cons_self, ?_⟩
    rw [if_pos rfl, reaches_modify_bind]
    by_cases hnode : topologyHolds scoring.graph (scoring.already ++ [[⟨node, wanted⟩]]) scoring.request
    · obtain ⟨score, hscore⟩ := scoreNode_known [] (hknown node List.mem_cons_self)
      rw [if_pos hnode, reaches_attempt_bind]
      refine ⟨score, hscore, ?_⟩
      rw [reaches_pure]
      exact ⟨node, List.mem_cons_self, hnode, _, rfl⟩
    · rw [if_neg hnode]
      have hlater : ∃ other ∈ rest,
          topologyHolds scoring.graph (scoring.already ++ [[⟨other, wanted⟩]]) scoring.request := by
        obtain ⟨other, hother, hadmitted⟩ := hholds
        rcases List.mem_cons.mp hother with rfl | hother
        · exact absurd hadmitted hnode
        · exact ⟨other, hother, hadmitted⟩
      obtain ⟨result, t, hresult, other, hother, hfound⟩ := ih
        (fun other hother => hknown other (List.mem_cons_of_mem _ hother))
        (fun other hother => hcover other (List.mem_cons_of_mem _ hother)) hlater _
      exact ⟨result, t, hresult, other, List.mem_cons_of_mem _ hother, hfound⟩

/-- What units are taken: allowed ones, as many as asked for unless every
remaining node would break a constraint. -/
structure TakenUnits (scoring : ScoreCtx) (count : Nat) (ranked : List NodeId)
    (chosen taken : List Claim) : Prop where
  holds : topologyHolds scoring.graph (scoring.already ++ [taken]) scoring.request
  most : taken.length ≤ count
  keeps : chosen.Sublist taken
  units : ∀ claim ∈ taken, claim ∈ chosen ∨ claim.node ∈ ranked ∧ claim.quantity = qty .count 1
  short : taken.length < count → ∀ node ∈ ranked, topologyHolds scoring.graph
    (scoring.already ++ [taken ++ [⟨node, qty .count 1⟩]]) scoring.request = false

theorem reaches_takeUnits {count : UInt64}
    (hknown : ∀ node ∈ ranked, scoring.graph.node node ≠ none) {chosen : List Claim}
    (hholds : topologyHolds scoring.graph (scoring.already ++ [chosen]) scoring.request)
    (hmost : chosen.length ≤ count.toNat) (notes : List String) (trace : TopologyTrace) :
    Reaches trace (takeUnits scoring count chosen notes ranked) fun taken _ =>
      TakenUnits scoring count.toNat ranked chosen taken.1 := by
  induction ranked generalizing chosen notes trace with
  | nil =>
    rw [takeUnits, reaches_pure]
    exact ⟨hholds, hmost, List.Sublist.refl _, fun claim hclaim => .inl hclaim, by simp⟩
  | cons node rest ih =>
    rw [takeUnits]
    split
    · rename_i hfull
      rw [reaches_pure]
      exact ⟨hholds, hmost, List.Sublist.refl _, fun claim hclaim => .inl hclaim,
        fun hshort => absurd hshort (Nat.not_lt_of_le hfull)⟩
    rename_i hroom
    have hrest := fun other hother => hknown other (List.mem_cons_of_mem _ hother)
    simp only [topologyHoldsTraced, bind_assoc, pure_bind, reaches_modify_bind]
    split
    · rename_i hadmitted
      obtain ⟨score, hscore⟩ := scoreNode_known chosen (hknown node List.mem_cons_self)
      rw [reaches_attempt_bind]
      refine ⟨score, hscore, ?_⟩
      obtain ⟨taken, t, htaken, htakes⟩ := @ih hrest (chosen ++ [⟨node, qty .count 1⟩]) hadmitted
        (by simp only [List.length_append, List.length_singleton]; omega)
        (notes ++ [selectionNote scoring.graph scoring.request node score])
        (traceTopology scoring.graph (scoring.already ++ [chosen ++ [⟨node, qty .count 1⟩]])
          scoring.request trace)
      refine ⟨taken, t, htaken, htakes.holds, htakes.most,
        (List.sublist_append_left _ _).trans htakes.keeps, fun claim hclaim => ?_, ?_⟩
      · rcases htakes.units claim hclaim with hchosen | ⟨hmem, hquantity⟩
        · rcases List.mem_append.mp hchosen with hchosen | hnew
          · exact .inl hchosen
          · rw [List.mem_singleton.mp hnew]
            exact .inr ⟨List.mem_cons_self, rfl⟩
        · exact .inr ⟨List.mem_cons_of_mem _ hmem, hquantity⟩
      · intro hshort other hother
        rcases List.mem_cons.mp hother with rfl | hother
        · exact topologyHolds_repeated (htakes.keeps.subset (by simp))
        · exact htakes.short hshort other hother
    · rename_i hrefused
      obtain ⟨taken, t, htaken, htakes⟩ := @ih hrest chosen hholds hmost notes
        (traceTopology scoring.graph (scoring.already ++ [chosen ++ [⟨node, qty .count 1⟩]])
          scoring.request trace)
      refine ⟨taken, t, htaken, htakes.holds, htakes.most, htakes.keeps, fun claim hclaim => ?_, ?_⟩
      · exact (htakes.units claim hclaim).imp_right fun h => ⟨List.mem_cons_of_mem _ h.1, h.2⟩
      · intro hshort other hother
        rcases List.mem_cons.mp hother with rfl | hother
        · -- a node refused beside fewer claims is refused beside more
          rw [Bool.eq_false_iff]
          exact fun hlater => hrefused (topologyHolds_shrink
            (List.Sublist.append htakes.keeps (List.Sublist.refl _)) hlater)
        · exact htakes.short hshort other hother

theorem TakenUnits.full {count : Nat} {taken : List Claim}
    (h : TakenUnits scoring count ranked [] taken)
    (hgrows : Grows scoring.graph scoring.request scoring.already count (· ∈ ranked)) :
    taken.length = count := by
  refine Nat.le_antisymm h.most (Nat.le_of_not_lt fun hshort => ?_)
  obtain ⟨node, hnode, hholds⟩ := hgrows taken (fun claim hclaim => by
    simpa using h.units claim hclaim) hshort h.holds
  rw [h.short hshort node hnode] at hholds
  cases hholds

/-- A machine where units can always be added is not passed over. -/
theorem reaches_takeOnMachine {count : UInt64}
    (hknown : ∀ node ∈ ranked, scoring.graph.node node ≠ none)
    (hholds : topologyHolds scoring.graph scoring.already scoring.request)
    {machines : List NodeId} (hgrows : ∃ machine ∈ machines,
      Grows scoring.graph scoring.request scoring.already count.toNat
        fun node => node ∈ ranked ∧ scoring.graph.machineOf node = some machine)
    (trace : TopologyTrace) :
    Reaches trace (takeOnMachine scoring count ranked machines) fun result _ =>
      ∃ taken, result = some taken ∧
        topologyHolds scoring.graph (scoring.already ++ [taken.1]) scoring.request := by
  induction machines generalizing trace with
  | nil =>
    obtain ⟨_, hnone, -⟩ := hgrows
    cases hnone
  | cons machine rest ih =>
    rw [takeOnMachine]
    refine reaches_bind (reaches_takeUnits (fun node hnode => hknown node (List.mem_filter.mp hnode).1)
      (topologyHolds_concat_nil hholds) (Nat.zero_le _) [] trace) ?_
    rintro ⟨chosen, notes⟩ t htaken
    dsimp only
    split
    · rw [reaches_pure]
      exact ⟨_, rfl, htaken.holds⟩
    · rename_i hshort
      refine ih ?_ t
      obtain ⟨other, hother, hroom⟩ := hgrows
      rcases List.mem_cons.mp hother with rfl | hother
      · exact absurd (htaken.full (by simpa using hroom)) hshort
      · exact ⟨other, hother, hroom⟩

end Need

/-! All needs. -/

/-- The node may serve the need, alone or with others. -/
def Offered (ctx : SelectCtx) (allowed : Option (List NodeId)) (need : Need) (node : NodeId) : Prop :=
  ∃ found, candidates ctx.graph ctx.occupancy need ctx.quarantine = .ok found ∧ node ∈ found ∧
    ∀ nodes ∈ allowed, node ∈ nodes

theorem mem_of_offered {ctx : SelectCtx} {allowed : Option (List NodeId)} {need : Need}
    {found : List NodeId} {node : NodeId}
    (hfound : candidates ctx.graph ctx.occupancy need ctx.quarantine = .ok found)
    (h : Offered ctx allowed need node) : node ∈ found := by
  obtain ⟨found', hfound', hmem, -⟩ := h
  rwa [Except.ok.inj (hfound.symm.trans hfound')]

/-- Beside what is picked, the need finds its nodes whichever it starts with. -/
structure Continues (ctx : SelectCtx) (allowed : Option (List NodeId)) (picked : List (List Claim))
    (need : Need) : Prop where
  whole : isConsumableNeed need → ∃ node, Offered ctx allowed need node ∧
    topologyHolds ctx.graph (picked ++ [[⟨node, consumableQuantity need⟩]]) ctx.request
  together : isConsumableNeed need = false → ctx.request.machineLocal → ∃ machine,
    Grows ctx.graph ctx.request picked (unitCount need).toNat fun node =>
      Offered ctx allowed need node ∧ ctx.graph.machineOf node = some machine
  anywhere : isConsumableNeed need = false → ctx.request.machineLocal = false →
    Grows ctx.graph ctx.request picked (unitCount need).toNat (Offered ctx allowed need)

/-- No choice for the first needs leaves the next one without nodes. -/
def NeverStuck (ctx : SelectCtx) (allowed : Option (List NodeId)) : Prop :=
  ∀ done need rest picked, ctx.request.needs = done ++ need :: rest →
    List.Forall₂ (Takes ctx allowed) done picked → topologyHolds ctx.graph picked ctx.request →
    Continues ctx allowed picked need

section Needs
variable {ctx : SelectCtx} {allowed : Option (List NodeId)} {need : Need}

theorem Grows.offered {graph : Graph} {request : Request} {already : List (List Claim)} {count : Nat}
    {eligible : NodeId → Prop} (h : Grows graph request already count eligible) (hcount : 0 < count)
    (hholds : topologyHolds graph already request) : ∃ node, eligible node := by
  obtain ⟨node, hnode, -⟩ := h [] (by simp) hcount (topologyHolds_concat_nil hholds)
  exact ⟨node, hnode⟩

theorem Grows.of_iff {graph : Graph} {request : Request} {already : List (List Claim)} {count : Nat}
    {eligible other : NodeId → Prop} (h : Grows graph request already count eligible)
    (hsame : ∀ node, other node ↔ eligible node) : Grows graph request already count other := by
  rwa [show other = eligible from funext fun node => propext (hsame node)]

theorem candidate_known {found : List NodeId}
    (hfound : candidates ctx.graph ctx.occupancy need ctx.quarantine = .ok found) :
    ∀ node ∈ found, ctx.graph.node node ≠ none ∧
      ctx.occupancy.canCover ctx.graph ⟨node, needUnit need⟩ = .ok true ∧
      ∃ d, quantityGet (needUnit need) d ≠ 0 := by
  intro node hnode
  obtain ⟨-, hoffers⟩ := (mem_candidates hfound node).mp hnode
  obtain ⟨item, required, hitem, hcontract, -, -, hcover⟩ := offers_ok.mp hoffers
  exact ⟨by simp [hitem], hcover, Graph.claimBindingForQuantity_positive hcontract⟩

theorem positive_accepted {wanted : Quantity} {d : CapacityDimension} {error : Error}
    (hd : quantityGet wanted d ≠ 0) :
    refuseIf (wanted.isEmpty ∨ (OrdMap.vals wanted).all fun amount => amount = 0) error = .ok () := by
  rw [refuseIf_ok, not_or]
  refine ⟨by simp [isEmpty_false_of_quantityGet hd], fun hall => hd ?_⟩
  simp only [List.all_eq_true, decide_eq_true_eq, OrdMap.mem_vals] at hall
  unfold quantityGet
  cases hentry : wanted[d]? with
  | none => rfl
  | some amount => exact hall amount ⟨d, hentry⟩

theorem Continues.offered {picked : List (List Claim)} (h : Continues ctx allowed picked need)
    (hholds : topologyHolds ctx.graph picked ctx.request) : ∃ node, Offered ctx allowed need node := by
  have hcount : 0 < (unitCount need).toNat := MachineSearch.one_le_unitCount need
  by_cases hconsumable : isConsumableNeed need
  · obtain ⟨node, hnode, -⟩ := h.whole hconsumable
    exact ⟨node, hnode⟩
  · have hcountable : isConsumableNeed need = false := by simpa using hconsumable
    cases hlocal : ctx.request.machineLocal with
    | true =>
      obtain ⟨machine, hgrows⟩ := h.together hcountable hlocal
      obtain ⟨node, hnode, -⟩ := hgrows.offered hcount hholds
      exact ⟨node, hnode⟩
    | false => exact (h.anywhere hcountable hlocal).offered hcount hholds

theorem reaches_selectNeedIn {already : List (List Claim)}
    (hholds : topologyHolds ctx.graph already ctx.request)
    (hcontinues : Continues ctx allowed already need) (trace : TopologyTrace) :
    Reaches trace (selectNeedIn ctx need already allowed) fun taken _ =>
      topologyHolds ctx.graph (already ++ [taken.1]) ctx.request := by
  obtain ⟨first, found, hfound, hfirst, hwithin⟩ := hcontinues.offered hholds
  have hcandidate := candidate_known hfound
  have hoffered : ∀ node, node ∈ found.filter (fun node => allowed.all fun nodes => node ∈ nodes) ↔
      Offered ctx allowed need node := by
    intro node
    rw [List.mem_filter]
    constructor
    · rintro ⟨hmem, hall⟩
      refine ⟨found, hfound, hmem, fun nodes hnodes => ?_⟩
      rw [Option.mem_def] at hnodes
      simpa [hnodes] using hall
    · rintro ⟨found', hfound', hmem, hall⟩
      obtain rfl : found = found' := Except.ok.inj (hfound.symm.trans hfound')
      refine ⟨hmem, ?_⟩
      cases hallowed : allowed with
      | none => rfl
      | some nodes => simpa using hall nodes hallowed
  generalize hall : found.filter (fun node => allowed.all fun nodes => node ∈ nodes) = offered at hoffered
  have hknown : ∀ node ∈ offered, ctx.graph.node node ≠ none := by
    intro node hnode
    rw [← hall] at hnode
    exact (hcandidate node (List.mem_filter.mp hnode).1).1
  have hcover : ∀ node ∈ offered, ctx.occupancy.canCover ctx.graph ⟨node, needUnit need⟩ = .ok true := by
    intro node hnode
    rw [← hall] at hnode
    exact (hcandidate node (List.mem_filter.mp hnode).1).2.1
  have hranks : ∀ memoryWant, ∃ ranked, rank (ctx.score already memoryWant) [] offered = .ok ranked :=
    fun memoryWant => rank_known hknown
  simp only [selectNeedIn, reaches_attempt_bind]
  refine ⟨found, hfound, (), ?_, ?_⟩
  · rw [refuseIf_ok, hall]
    exact List.ne_nil_of_mem ((hoffered first).mpr ⟨found, hfound, hfirst, hwithin⟩)
  rw [hall]
  by_cases hconsumable : isConsumableNeed need
  · have hunit : needUnit need = consumableQuantity need := if_pos hconsumable
    obtain ⟨ranked, hranked⟩ := hranks (quantityGet (consumableQuantity need) .bytes)
    have hmem := fun node => @mem_rank _ _ _ _ hranked node
    rw [if_pos hconsumable, reaches_attempt_bind]
    refine ⟨(), ?_, ?_⟩
    · obtain ⟨-, -, d, hd⟩ := hcandidate first hfirst
      rw [hunit] at hd
      exact positive_accepted hd
    rw [reaches_attempt_bind]
    obtain ⟨node, hnode, hadmitted⟩ := hcontinues.whole hconsumable
    refine ⟨ranked, hranked, reaches_bind (reaches_takeWhole
      (fun other hother => hknown other ((hmem other).mp hother))
      (fun other hother => hunit ▸ hcover other ((hmem other).mp hother))
      ⟨node, (hmem node).mpr ((hoffered node).mpr hnode), hadmitted⟩ trace) ?_⟩
    rintro _ t ⟨other, -, hother, notes, rfl⟩
    rw [reaches_attempt]
    exact ⟨_, rfl, hother⟩
  · have hcountable : isConsumableNeed need = false := by simpa using hconsumable
    obtain ⟨ranked, hranked⟩ := hranks 0
    have hmem : ∀ node, node ∈ ranked ↔ Offered ctx allowed need node :=
      fun node => (mem_rank hranked).trans (hoffered node)
    have hrankedKnown : ∀ node ∈ ranked, ctx.graph.node node ≠ none :=
      fun node hnode => hknown node ((mem_rank hranked).mp hnode)
    rw [if_neg hconsumable]
    cases hlocal : ctx.request.machineLocal with
    | true =>
      rw [if_pos rfl, reaches_attempt_bind]
      obtain ⟨machine, hgrows⟩ := hcontinues.together hcountable hlocal
      have hgrows' : Grows ctx.graph ctx.request already (unitCount need).toNat fun node =>
          node ∈ ranked ∧ ctx.graph.machineOf node = some machine :=
        hgrows.of_iff fun node => and_congr (hmem node) Iff.rfl
      obtain ⟨node, hnode, hmachine⟩ := hgrows'.offered (MachineSearch.one_le_unitCount need) hholds
      have hlisted : machine ∈ (ranked.filterMap ctx.graph.machineOf).eraseDups := by
        rw [List.mem_eraseDups, List.mem_filterMap]
        exact ⟨node, hnode, hmachine⟩
      refine ⟨ranked, hranked, reaches_bind (@reaches_takeOnMachine (ctx.score already 0) ranked
        (unitCount need) hrankedKnown hholds _ ⟨machine, hlisted, hgrows'⟩ trace) ?_⟩
      rintro _ t ⟨taken, rfl, htaken⟩
      rw [reaches_attempt]
      exact ⟨_, rfl, htaken⟩
    | false =>
      rw [if_neg Bool.false_ne_true]
      simp only [selectSpread, reaches_attempt_bind]
      refine ⟨ranked, hranked, reaches_bind (@reaches_takeUnits (ctx.score already 0) ranked
        (unitCount need) hrankedKnown [] (topologyHolds_concat_nil hholds) (Nat.zero_le _) [] trace) ?_⟩
      rintro ⟨chosen, notes⟩ t htaken
      have hfull : chosen.length = (unitCount need).toNat :=
        htaken.full ((hcontinues.anywhere hcountable hlocal).of_iff hmem)
      simp only [reaches_attempt_bind, reaches_pure]
      refine ⟨(), ?_, htaken.holds⟩
      rw [refuseIf_ok, not_not]
      exact hfull

/-- Greedy selection completes when no choice for the first needs blocks a later one. -/
theorem reaches_selectNeeds (h : NeverStuck ctx allowed) {done rest : List Need}
    (hneeds : ctx.request.needs = done ++ rest) {picked : List (List Claim)}
    (htaken : List.Forall₂ (Takes ctx allowed) done picked)
    (hholds : topologyHolds ctx.graph picked ctx.request) (notes : List String) (trace : TopologyTrace) :
    Reaches trace (selectNeeds ctx allowed picked notes rest) fun result _ =>
      List.Forall₂ (Takes ctx allowed) ctx.request.needs result.1 ∧
        topologyHolds ctx.graph result.1 ctx.request := by
  induction rest generalizing done picked notes trace with
  | nil =>
    rw [selectNeeds, reaches_pure, hneeds, List.append_nil]
    exact ⟨htaken, hholds⟩
  | cons need rest ih =>
    rw [selectNeeds]
    obtain ⟨taken, t, hrun, hnext⟩ :=
      reaches_selectNeedIn hholds (h done need rest picked hneeds htaken hholds) trace
    have htakes := yields_selectNeedIn_takes need picked allowed trace taken t hrun
    have hboth : Reaches trace (selectNeedIn ctx need picked allowed) fun taken _ =>
        Takes ctx allowed need taken.1 ∧ topologyHolds ctx.graph (picked ++ [taken.1]) ctx.request :=
      ⟨taken, t, hrun, htakes, hnext⟩
    refine reaches_bind hboth ?_
    rintro ⟨claims, more⟩ u ⟨hclaims, hholds'⟩
    refine @ih (done ++ [need]) ?_ _ (List.rel_append htaken (.cons hclaims .nil)) hholds' _ _
    rw [hneeds, List.append_assoc, List.singleton_append]

end Needs

end Select
end Archon.Kernel
