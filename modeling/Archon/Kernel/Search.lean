import Archon.Kernel.Feasible

/-! The search of one machine, exact within its budget. What it reports is an assignment of
every need; where it reports none and has budget left there is none, and the selection it was
given is as it was. -/
namespace Archon.Kernel
open Fallible

namespace Select

/-! Assignments. -/

/-- The claim may be given to the need: an allowed node of its class with its attributes and no
block above it, under one contract, with room for the claim. -/
structure Placeable (ctx : SelectCtx) (allowed : List NodeId) (need : Need) (claim : Claim) : Prop where
  kind : claim.node ∈ ctx.graph.nodesOfClass need.kind
  allowed : claim.node ∈ allowed
  serves : ∃ node, ctx.graph.node claim.node = some node ∧
    isBlocked ctx.graph ctx.quarantine node.id = false ∧
    ∀ filter ∈ need.filters, node.attrs[filter.key]? = some filter.value
  contract : ∃ required, ctx.graph.claimBindingForQuantity claim.node claim.quantity = .ok required
  covered : ctx.occupancy.canCover ctx.graph claim = .ok true

/-- The group is what the need asks for, on nodes it may be given. -/
structure Assigned (ctx : SelectCtx) (allowed : List NodeId) (need : Need) (group : List Claim) :
    Prop where
  asked : GroupFor need group
  placeable : ∀ claim ∈ group, Placeable ctx allowed need claim

/-- One group for each need, on distinct nodes that relate as the constraints ask. -/
structure Assignment (ctx : SelectCtx) (allowed : List NodeId) (groups : List (List Claim)) : Prop where
  assigned : List.Forall₂ (Assigned ctx allowed) ctx.request.needs groups
  distinct : DistinctNodes groups.flatten
  related : ∀ constraint ∈ ctx.request.topology, ∀ lefts rights,
    groups[constraint.left]? = some lefts → groups[constraint.right]? = some rights →
    ∀ l ∈ lefts, ∀ r ∈ rights, ctx.graph.satisfies l.node r.node constraint.relation

section Assignments
variable {ctx : SelectCtx} {allowed : List NodeId} {need : Need} {claim : Claim}

theorem assignment_iff {groups : List (List Claim)} : Assignment ctx allowed groups ↔
    List.Forall₂ (Assigned ctx allowed) ctx.request.needs groups ∧
      topologyHolds ctx.graph groups ctx.request := by
  rw [topologyHolds_iff]
  exact ⟨fun h => ⟨h.assigned, h.distinct, h.related⟩, fun h => ⟨h.1, h.2.1, h.2.2⟩⟩

/-- A claim for what the need asks of one node may be given exactly on an allowed candidate. -/
theorem placeable_iff {found : List NodeId}
    (hfound : candidates ctx.graph ctx.occupancy need ctx.quarantine = .ok found)
    (hquantity : claim.quantity = needUnit need) :
    Placeable ctx allowed need claim ↔ claim.node ∈ found.filter fun node => node ∈ allowed := by
  rw [List.mem_filter, decide_eq_true_eq, Cluster.mem_candidates hfound, Cluster.offers_ok]
  obtain ⟨id, quantity⟩ := claim
  dsimp only at hquantity ⊢
  subst hquantity
  constructor
  · rintro ⟨hkind, hallowed, ⟨node, hnode, hclear, hfilters⟩, ⟨required, hcontract⟩, hcovered⟩
    exact ⟨⟨hkind, node, required, hnode, hcontract, hclear, hfilters, hcovered⟩, hallowed⟩
  · rintro ⟨⟨hkind, node, required, hnode, hcontract, hclear, hfilters, hcovered⟩, hallowed⟩
    exact ⟨hkind, hallowed, ⟨node, hnode, hclear, hfilters⟩, ⟨required, hcontract⟩, hcovered⟩

theorem Assigned.exists_claim {group : List Claim} (h : Assigned ctx allowed need group) :
    ∃ claim, claim ∈ group := by
  have hasked := h.asked
  unfold GroupFor at hasked
  split at hasked
  · obtain ⟨node, rfl⟩ := hasked
    exact ⟨_, List.mem_singleton_self _⟩
  · exact List.exists_mem_of_length_pos (by omega)

theorem Assigned.candidate {found : List NodeId} {group : List Claim}
    (hfound : candidates ctx.graph ctx.occupancy need ctx.quarantine = .ok found)
    (h : Assigned ctx allowed need group) (hclaim : claim ∈ group) :
    claim.node ∈ found.filter fun node => node ∈ allowed :=
  (placeable_iff hfound (h.asked.quantity hclaim)).mp (h.placeable claim hclaim)

/-- What holds of groups holds of fewer claims in each. -/
theorem topologyHolds_mono {graph : Graph} {request : Request} {fewer more : List (List Claim)}
    (hfewer : List.Forall₂ List.Subperm fewer more) (h : topologyHolds graph more request) :
    topologyHolds graph fewer request := by
  obtain ⟨hdistinct, hrelated⟩ := topologyHolds_iff.mp h
  have hflat : fewer.flatten.Subperm more.flatten := by
    clear h hdistinct hrelated
    induction hfewer with
    | nil => exact List.Subperm.refl _
    | cons hhead _ ih => exact hhead.append ih
  have hgroup : ∀ (index : Nat) (group : List Claim), fewer[index]? = some group →
      ∃ larger, more[index]? = some larger ∧ group ⊆ larger := by
    intro index group hget
    obtain ⟨hindex, rfl⟩ := List.getElem?_eq_some_iff.mp hget
    obtain ⟨hlength, hsub⟩ := List.forall₂_iff_get.mp hfewer
    exact ⟨_, List.getElem?_eq_getElem (hlength ▸ hindex), (hsub index hindex (hlength ▸ hindex)).subset⟩
  refine topologyHolds_iff.mpr ⟨?_, ?_⟩
  · obtain ⟨kept, hperm, hkept⟩ := hflat
    exact (hperm.map Claim.node).nodup_iff.mp (hdistinct.sublist (hkept.map Claim.node))
  · intro constraint hconstraint lefts rights hlefts hrights l hl r hr
    obtain ⟨lefts', hlefts', hleft⟩ := hgroup _ _ hlefts
    obtain ⟨rights', hrights', hright⟩ := hgroup _ _ hrights
    exact hrelated constraint hconstraint _ _ hlefts' hrights' l (hleft hl) r (hright hr)

end Assignments

/-! Stages of the search. -/

namespace MachineSearch
variable {ctx : SelectCtx} {α β : Type}

/-- Whatever its outcome, the program adds nothing to the budget. -/
def Spends (program : SearchM α) : Prop :=
  ∀ search, (after program search).remaining ≤ search.remaining

theorem Spends.bind {program : SearchM α} {next : α → SearchM β} (h : Spends program)
    (hnext : ∀ a, Spends (next a)) : Spends (program >>= next) := by
  intro search
  refine @after_bind _ _ _ _ (fun t : MachineSearch => t.remaining ≤ search.remaining) _ _ _ (h search) ?_
  intro a spent hspent
  have hfirst := h search
  rw [after_of_ok hspent] at hfirst
  exact (hnext a spent).trans hfirst

theorem spends_pure (a : α) : Spends (pure a) := fun _ => le_rfl

theorem spends_get : Spends get := fun _ => le_rfl

theorem spends_modify {f : MachineSearch → MachineSearch}
    (h : ∀ search, (f search).remaining ≤ search.remaining) : Spends (modify f) := h

theorem spends_attempt (check : Except Error α) : Spends (attempt check) := by
  intro search
  unfold after attempt
  cases check <;> exact le_rfl

theorem spends_ite {condition : Prop} [Decidable condition] {yes no : SearchM α} (hyes : Spends yes)
    (hno : Spends no) : Spends (if condition then yes else no) := by
  split
  · exact hyes
  · exact hno

theorem spends_consume : Spends consume :=
  spends_get.bind fun _ => spends_ite (spends_pure false)
    ((spends_modify fun _ => Nat.sub_le _ _).bind fun _ => spends_pure true)

theorem spends_pick (index : Nat) (claims : List Claim) : Spends (pick index claims) :=
  spends_modify fun _ => le_rfl

theorem spends_holdsTraced : Spends (holdsTraced ctx) := fun _ => le_rfl

theorem spends_try {check : Except Error Bool} {index : Nat} {claims undo : List Claim}
    {next other : SearchM Bool} (hnext : Spends next) (hother : Spends other) : Spends (do
      let budgeted ← consume
      if budgeted then
        let covered ← attempt check
        if covered then
          pick index claims
          let holds ← holdsTraced ctx
          let done ← if holds then next else pure false
          if done then
            return true
          else do
            pick index undo
            other
        else
          other
      else
        return false) := by
  refine spends_consume.bind fun budgeted => spends_ite ?_ (spends_pure false)
  refine (spends_attempt check).bind fun covered => spends_ite ?_ hother
  refine (spends_pick index claims).bind fun _ => spends_holdsTraced.bind fun holds => ?_
  have hrest : ∀ done : Bool, Spends (if done then pure true else do
      pick index undo
      other) :=
    fun done => spends_ite (spends_pure true) ((spends_pick index undo).bind fun _ => hother)
  exact spends_ite (hnext.bind hrest) ((spends_pure false).bind hrest)

variable {index : Nat} {next : SearchM Bool}

theorem spends_tryWhole (wanted : Quantity) (hnext : Spends next) (ranked : List NodeId) :
    Spends (tryWhole ctx index wanted next ranked) := by
  induction ranked with
  | nil => exact spends_pure false
  | cons node rest ih => exact spends_try hnext ih

theorem spends_group (count : UInt64) (hnext : Spends next) (chosen : List Claim)
    (ranked : List NodeId) : Spends (group ctx index count next chosen ranked) := by
  induction ranked generalizing chosen with
  | nil => exact spends_ite hnext (spends_pure false)
  | cons node rest ih => exact spends_ite hnext (spends_try (ih _) (ih _))

theorem spends_needs (allowed : List NodeId) (needs : List Need) :
    Spends (MachineSearch.needs ctx allowed index needs) := by
  induction needs generalizing index with
  | nil => exact spends_holdsTraced
  | cons need rest ih =>
    refine spends_get.bind fun search => (spends_attempt _).bind fun found => spends_ite (spends_pure false) ?_
    refine (spends_attempt _).bind fun ranked => spends_ite ?_ ?_
    · exact spends_tryWhole _ ih ranked
    · exact spends_group _ ih [] ranked

/-- A stage that fails leaves the selection as it was; where it has budget left, none of the
selections it could have completed holds up. -/
structure Tried (ctx : SelectCtx) (completes : List (List Claim) → Prop) (picked : List (List Claim))
    (done : Bool) (after : MachineSearch) : Prop where
  restored : done = false → after.picked = picked
  exhausted : done = false → 0 < after.remaining → ∀ groups, completes groups →
    ¬topologyHolds ctx.graph groups ctx.request

theorem tried_true {completes : List (List Claim) → Prop} {picked : List (List Claim)}
    {after : MachineSearch} : Tried ctx completes picked true after := ⟨nofun, nofun⟩

theorem Spends.le {program : SearchM α} (h : Spends program) {search after : MachineSearch} {a : α}
    (hafter : program search = .ok a after) : after.remaining ≤ search.remaining := by
  have hspends := h search
  rwa [after_of_ok hafter] at hspends

theorem yields_consume_tried (search : MachineSearch) :
    Yields search consume fun budgeted after =>
      after.picked = search.picked ∧ (budgeted = false → after.remaining = 0) := by
  simp only [consume, yields_get_bind, yields_ite, yields_pure, yields_modify_bind]
  refine ⟨fun hnone => ⟨trivial, fun _ => hnone⟩, fun _ => ⟨trivial, fun hout => ?_⟩⟩
  cases hout

theorem yields_holdsTraced_tried (search : MachineSearch) :
    Yields search (holdsTraced ctx) fun holds after =>
      after.picked = search.picked ∧ holds = topologyHolds ctx.graph search.picked ctx.request := by
  simp only [holdsTraced, yields_get_bind, yields_modify_bind, yields_pure, and_self]

section Try
variable {completes others : List (List Claim) → Prop} {check : Except Error Bool}
  {picked : List (List Claim)} {claims undo : List Claim} {other : SearchM Bool}

/-- What follows a selection that was tried: undo it and try the others. -/
theorem tried_undo {firsts : List (List Claim) → Prop} (hundo : picked.set index undo = picked)
    (hsplit : ∀ groups, completes groups → firsts groups ∨ others groups)
    (hother : ∀ search, search.picked = picked → Yields search other (Tried ctx others picked))
    (hspends : Spends other) {done : Bool} {search : MachineSearch}
    (h : Tried ctx firsts (picked.set index claims) done search) :
    Yields search (do
      if done then
        return true
      else do
        pick index undo
        other) (Tried ctx completes picked) := by
  simp only [pick, yields_ite, yields_pure, yields_modify_bind, Bool.not_eq_true]
  refine ⟨fun _ => tried_true, fun hfailed found after hafter => ?_⟩
  have hpicked : search.picked.set index undo = picked := by
    rw [h.restored hfailed, List.set_set, hundo]
  have hothers := hother { search with picked := search.picked.set index undo } hpicked found after hafter
  have hspent := hspends.le hafter
  refine ⟨hothers.restored, fun hfound hleft groups hgroups => ?_⟩
  rcases hsplit groups hgroups with hfirst | hlater
  · exact h.exhausted hfailed (hleft.trans_le hspent) groups hfirst
  · exact hothers.exhausted hfound hleft groups hlater

/-- One try of a node: what goes through the node is tried first, the rest after it. A selection
that breaks a constraint has no completion that holds up. -/
theorem tried_try (firsts : List (List Claim) → Prop) (hundo : picked.set index undo = picked)
    (hsplit : ∀ covered, check = .ok covered → ∀ groups, completes groups →
      (covered = true ∧ firsts groups) ∨ others groups)
    (hprune : ∀ groups, firsts groups → topologyHolds ctx.graph groups ctx.request →
      topologyHolds ctx.graph (picked.set index claims) ctx.request)
    (hnext : ∀ search, search.picked = picked.set index claims →
      Yields search next (Tried ctx firsts (picked.set index claims)))
    (hother : ∀ search, search.picked = picked → Yields search other (Tried ctx others picked))
    (hspends : Spends other) {search : MachineSearch} (hsearch : search.picked = picked) :
    Yields search (do
      let budgeted ← consume
      if budgeted then
        let covered ← attempt check
        if covered then
          pick index claims
          let holds ← holdsTraced ctx
          let done ← if holds then next else pure false
          if done then
            return true
          else do
            pick index undo
            other
        else
          other
      else
        return false) (Tried ctx completes picked) := by
  refine yields_bind (yields_consume_tried search) ?_
  rintro budgeted spent ⟨hspent, hnone⟩
  rw [hsearch] at hspent
  simp only [yields_ite, yields_attempt_bind, yields_pure, Bool.not_eq_true]
  refine ⟨fun _ covered hcovered => ⟨fun hyes => ?_, fun hno => ?_⟩, fun hout => ⟨fun _ => hspent, ?_⟩⟩
  · have hchoice : ∀ groups, completes groups → firsts groups ∨ others groups :=
      fun groups hgroups => (hsplit covered hcovered groups hgroups).imp_left And.right
    simp only [pick, yields_modify_bind]
    refine yields_bind (yields_holdsTraced_tried _) ?_
    rintro holds traced ⟨htraced, hholds⟩
    rw [hspent] at htraced hholds
    rw [yields_ite]
    refine ⟨fun _ => ?_, fun hbroken => ?_⟩
    · exact yields_bind (hnext traced htraced) fun done tried htried =>
        tried_undo hundo hchoice hother hspends htried
    · refine yields_bind (yields_pure.mpr (⟨fun _ => htraced, fun _ _ groups hgroups hup => ?_⟩ :
        Tried ctx firsts (picked.set index claims) false traced)) fun done tried htried =>
        tried_undo hundo hchoice hother hspends htried
      rw [hholds] at hbroken
      exact hbroken (hprune groups hgroups hup)
  · intro done after hafter
    have hothers := hother spent hspent done after hafter
    refine ⟨hothers.restored, fun hdone hleft groups hgroups => ?_⟩
    rcases hsplit covered hcovered groups hgroups with ⟨hyes, -⟩ | hlater
    · simp [hyes] at hno
    · exact hothers.exhausted hdone hleft groups hlater
  · intro _ hleft
    rw [hnone hout] at hleft
    exact absurd hleft (Nat.lt_irrefl 0)

end Try

theorem Tried.weaken {completes others : List (List Claim) → Prop} {picked : List (List Claim)}
    {done : Bool} {search : MachineSearch} (h : Tried ctx completes picked done search)
    (hcompletes : ∀ groups, others groups → topologyHolds ctx.graph groups ctx.request →
      ∃ same, completes same ∧ topologyHolds ctx.graph same ctx.request) :
    Tried ctx others picked done search := by
  refine ⟨h.restored, fun hdone hleft groups hgroups hup => ?_⟩
  obtain ⟨same, hsame, hholds⟩ := hcompletes groups hgroups hup
  exact h.exhausted hdone hleft same hsame hholds

/-! The needs in turn. -/

/-- Nothing selected for the needs. -/
def blank (needs : List Need) : List (List Claim) := needs.map fun _ => []

/-- The groups go on from those before with groups that may be given to the needs. -/
def Completes (ctx : SelectCtx) (allowed : List NodeId) (needs : List Need)
    (before groups : List (List Claim)) : Prop :=
  ∃ later, List.Forall₂ (Assigned ctx allowed) needs later ∧ groups = before ++ later

section Needs
variable {allowed : List NodeId} {before : List (List Claim)} {rest : List Need}

theorem blank_subperm {needs : List Need} {later : List (List Claim)}
    (h : List.Forall₂ (Assigned ctx allowed) needs later) :
    List.Forall₂ List.Subperm (blank needs) later := by
  induction h with
  | nil => exact .nil
  | cons _ _ ih => exact .cons List.nil_subperm ih

theorem refl_subperm (groups : List (List Claim)) : List.Forall₂ List.Subperm groups groups :=
  List.forall₂_same.mpr fun group _ => List.Subperm.refl group

/-- A selection that some completion extends holds up if that does. -/
theorem holds_of_completes {chosen extra : List Claim} {groups : List (List Claim)}
    (h : Completes ctx allowed rest (before ++ [chosen ++ extra]) groups)
    (hup : topologyHolds ctx.graph groups ctx.request) :
    topologyHolds ctx.graph (before ++ chosen :: blank rest) ctx.request := by
  obtain ⟨later, hlater, rfl⟩ := h
  refine topologyHolds_mono ?_ hup
  rw [List.append_assoc]
  refine List.rel_append (refl_subperm before) (.cons ?_ (blank_subperm hlater))
  exact (List.sublist_append_left chosen extra).subperm

theorem tried_tryWhole {wanted : Quantity} {ranked : List NodeId} (hspends : Spends next)
    (hnext : ∀ node search, search.picked = before ++ [⟨node, wanted⟩] :: blank rest →
      Yields search next (Tried ctx (Completes ctx allowed rest (before ++ [[⟨node, wanted⟩]]))
        (before ++ [⟨node, wanted⟩] :: blank rest))) {search : MachineSearch}
    (hsearch : search.picked = before ++ [] :: blank rest) :
    Yields search (tryWhole ctx before.length wanted next ranked)
      (Tried ctx (fun groups => ∃ node ∈ ranked,
          ctx.occupancy.canCover ctx.graph ⟨node, wanted⟩ = .ok true ∧
          Completes ctx allowed rest (before ++ [[⟨node, wanted⟩]]) groups)
        (before ++ [] :: blank rest)) := by
  induction ranked generalizing search with
  | nil =>
    simp only [tryWhole, yields_pure]
    exact ⟨fun _ => hsearch, fun _ _ groups => by simp⟩
  | cons node nodes ih =>
    have hset : (before ++ [] :: blank rest).set before.length [⟨node, wanted⟩] =
        before ++ [⟨node, wanted⟩] :: blank rest := by simp
    refine tried_try (Completes ctx allowed rest (before ++ [[⟨node, wanted⟩]])) (by simp) ?_
      (fun groups hgroups hup => ?_) (fun tried htried => ?_) (fun after hafter => ih hafter)
      (spends_tryWhole wanted hspends nodes) hsearch
    · rintro covered hcovered groups ⟨other, hother, hcover, hgroups⟩
      rcases List.mem_cons.mp hother with rfl | hother
      · rw [hcover] at hcovered
        exact .inl ⟨(Except.ok.inj hcovered).symm, hgroups⟩
      · exact .inr ⟨other, hother, hcover, hgroups⟩
    · rw [hset]
      exact @holds_of_completes _ _ _ _ [⟨node, wanted⟩] [] _ hgroups hup
    · rw [hset] at htried ⊢
      exact hnext node tried htried

/-- The groups go on from `chosen` with single units on ranked nodes. -/
def Extends (ctx : SelectCtx) (allowed : List NodeId) (rest : List Need) (before : List (List Claim))
    (count : UInt64) (chosen : List Claim) (ranked : List NodeId) (groups : List (List Claim)) : Prop :=
  ∃ extra, (extra.map Claim.node).Sublist ranked ∧
    (∀ claim ∈ extra, claim.quantity = qty .count 1 ∧ ctx.occupancy.canCover ctx.graph claim = .ok true) ∧
    (chosen ++ extra).length = count.toNat ∧
    Completes ctx allowed rest (before ++ [chosen ++ extra]) groups

/-- A group that has enough is not extended. -/
theorem extends_full {count : UInt64} {chosen : List Claim} {ranked : List NodeId}
    {groups : List (List Claim)} (hfull : chosen.length = count.toNat)
    (h : Extends ctx allowed rest before count chosen ranked groups) :
    Completes ctx allowed rest (before ++ [chosen]) groups := by
  obtain ⟨extra, -, -, hlength, hgroups⟩ := h
  rw [List.length_append, hfull] at hlength
  obtain rfl : extra = [] := List.eq_nil_of_length_eq_zero (by omega)
  rwa [List.append_nil] at hgroups

/-- What goes on from a group takes the next ranked node or leaves it. -/
theorem extends_cons {count : UInt64} {chosen : List Claim} {node : NodeId} {nodes : List NodeId}
    {groups : List (List Claim)}
    (h : Extends ctx allowed rest before count chosen (node :: nodes) groups) :
    (ctx.occupancy.canCover ctx.graph ⟨node, qty .count 1⟩ = .ok true ∧
        Extends ctx allowed rest before count (chosen ++ [⟨node, qty .count 1⟩]) nodes groups) ∨
      Extends ctx allowed rest before count chosen nodes groups := by
  obtain ⟨extra, hsublist, hclaims, hlength, hgroups⟩ := h
  rcases List.sublist_cons_iff.mp hsublist with hlater | ⟨later, heq, hlater⟩
  · exact .inr ⟨extra, hlater, hclaims, hlength, hgroups⟩
  · obtain ⟨claim, more, rfl, hnode, rfl⟩ := List.map_eq_cons_iff.mp heq
    obtain ⟨hquantity, hcover⟩ := hclaims claim List.mem_cons_self
    obtain ⟨id, quantity⟩ := claim
    dsimp only at hnode hquantity
    subst hnode hquantity
    refine .inl ⟨hcover, more, hlater, fun other hother => hclaims other (List.mem_cons_of_mem _ hother), ?_⟩
    rw [List.append_cons chosen] at hlength hgroups
    exact ⟨hlength, hgroups⟩

theorem tried_group {count : UInt64} {chosen : List Claim} {ranked : List NodeId}
    (hspends : Spends next)
    (hnext : ∀ chosen search, search.picked = before ++ chosen :: blank rest →
      Yields search next (Tried ctx (Completes ctx allowed rest (before ++ [chosen]))
        (before ++ chosen :: blank rest))) {search : MachineSearch}
    (hsearch : search.picked = before ++ chosen :: blank rest) :
    Yields search (group ctx before.length count next chosen ranked)
      (Tried ctx (Extends ctx allowed rest before count chosen ranked)
        (before ++ chosen :: blank rest)) := by
  have hfull : ∀ chosen ranked search, chosen.length = count.toNat →
      search.picked = before ++ chosen :: blank rest →
      Yields search next (Tried ctx (Extends ctx allowed rest before count chosen ranked)
        (before ++ chosen :: blank rest)) := by
    intro chosen ranked search henough hsearch done after hafter
    refine (hnext chosen search hsearch done after hafter).weaken fun groups hgroups hup => ?_
    exact ⟨groups, extends_full henough hgroups, hup⟩
  induction ranked generalizing chosen search with
  | nil =>
    rw [group, yields_ite]
    refine ⟨fun henough => hfull chosen [] search henough hsearch, fun hshort => ?_⟩
    rw [yields_pure]
    refine ⟨fun _ => hsearch, fun _ _ groups hgroups => ?_⟩
    obtain ⟨extra, hnone, -, hlength, -⟩ := hgroups
    rw [List.sublist_nil, List.map_eq_nil_iff] at hnone
    rw [hnone, List.append_nil] at hlength
    exact absurd hlength hshort
  | cons node nodes ih =>
    rw [group, yields_ite]
    refine ⟨fun henough => hfull chosen _ search henough hsearch, fun _ => ?_⟩
    have hset : (before ++ chosen :: blank rest).set before.length (chosen ++ [⟨node, qty .count 1⟩]) =
        before ++ (chosen ++ [⟨node, qty .count 1⟩]) :: blank rest := by simp
    refine tried_try (Extends ctx allowed rest before count (chosen ++ [⟨node, qty .count 1⟩]) nodes)
      (by simp) ?_ (fun groups hgroups hup => ?_) (fun tried htried => ?_) (fun after hafter => ih hafter)
      (spends_group count hspends chosen nodes) hsearch
    · intro covered hcovered groups hgroups
      rcases extends_cons hgroups with ⟨hcover, hfirst⟩ | hlater
      · rw [hcover] at hcovered
        exact .inl ⟨(Except.ok.inj hcovered).symm, hfirst⟩
      · exact .inr hlater
    · obtain ⟨extra, -, -, -, hcompletes⟩ := hgroups
      rw [hset]
      exact holds_of_completes hcompletes hup
    · rw [hset] at htried ⊢
      exact ih htried

/-- Distinct nodes of a group are, in some order, ranked nodes in the order of their ranks. -/
theorem exists_ranked {group : List Claim} {ranked : List NodeId} {quantity : Quantity}
    (hdistinct : (group.map Claim.node).Nodup) (hranked : ∀ claim ∈ group, claim.node ∈ ranked)
    (hquantity : ∀ claim ∈ group, claim.quantity = quantity) :
    ∃ same : List Claim, same.Perm group ∧ (same.map Claim.node).Sublist ranked := by
  have hsubset : group.map Claim.node ⊆ ranked := by
    intro node hnode
    obtain ⟨claim, hclaim, rfl⟩ := List.mem_map.mp hnode
    exact hranked claim hclaim
  obtain ⟨nodes, hperm, hsublist⟩ := List.subperm_of_subset hdistinct hsubset
  have hgroup : (group.map Claim.node).map (fun node => Claim.mk node quantity) = group := by
    rw [List.map_map]
    conv_rhs => rw [← List.map_id group]
    refine List.map_congr_left fun claim hclaim => ?_
    rw [Function.comp, ← hquantity claim hclaim, id]
  refine ⟨nodes.map fun node => Claim.mk node quantity, ?_, ?_⟩
  · rw [← hgroup]
    exact hperm.map _
  · rw [List.map_map]
    simpa [Function.comp_def] using hsublist

theorem tried_needs {needs : List Need} (before : List (List Claim)) {search : MachineSearch}
    (hsearch : search.picked = before ++ blank needs) :
    Yields search (MachineSearch.needs ctx allowed before.length needs)
      (Tried ctx (Completes ctx allowed needs before) (before ++ blank needs)) := by
  induction needs generalizing before search with
  | nil =>
    intro holds after hafter
    obtain ⟨hpicked, hholds⟩ := yields_holdsTraced_tried search holds after hafter
    refine ⟨fun _ => hpicked.trans hsearch, fun hbroken _ groups hgroups hup => ?_⟩
    obtain ⟨_, ⟨⟩, rfl⟩ := hgroups
    rw [hbroken, hsearch] at hholds
    exact absurd hup (by simp [hholds, blank])
  | cons need rest ih =>
    have hnext : ∀ group search, search.picked = before ++ group :: blank rest →
        Yields search (MachineSearch.needs ctx allowed (before.length + 1) rest)
          (Tried ctx (Completes ctx allowed rest (before ++ [group])) (before ++ group :: blank rest)) := by
      intro group search hpicked
      have hlater := @ih (before ++ [group]) search (by simpa using hpicked)
      simpa using hlater
    simp only [MachineSearch.needs, yields_get_bind, yields_attempt_bind, yields_ite, yields_pure]
    intro found hfound
    refine ⟨fun hnone => ⟨fun _ => hsearch, fun _ _ groups hgroups _ => ?_⟩, fun _ ranked hranked => ?_⟩
    · obtain ⟨_, hassigned, rfl⟩ := hgroups
      cases hassigned with
      | cons hgroup _ =>
        obtain ⟨claim, hclaim⟩ := hgroup.exists_claim
        have hmem := hgroup.candidate hfound hclaim
        rw [hnone] at hmem
        cases hmem
    · have hmem : ∀ {group}, Assigned ctx allowed need group → ∀ claim ∈ group, claim.node ∈ ranked :=
        fun hgroup claim hclaim => (mem_rank hranked).mpr (hgroup.candidate hfound hclaim)
      refine ⟨fun hconsumable done after hafter => ?_, fun hcountable done after hafter => ?_⟩
      · refine (tried_tryWhole (spends_needs allowed rest) (fun node => hnext [⟨node, _⟩]) hsearch done
          after hafter).weaken fun groups hgroups hup => ⟨groups, ?_, hup⟩
        obtain ⟨_, hassigned, rfl⟩ := hgroups
        cases hassigned with
        | cons hgroup hlater =>
          have hasked := hgroup.asked
          rw [GroupFor, if_pos hconsumable] at hasked
          obtain ⟨node, rfl⟩ := hasked
          have hplaceable := hgroup.placeable _ (List.mem_singleton_self _)
          exact ⟨node, hmem hgroup _ (List.mem_singleton_self _), hplaceable.covered, _, hlater, by simp⟩
      · refine (tried_group (spends_needs allowed rest) hnext hsearch done after hafter).weaken
          fun groups hgroups hup => ?_
        obtain ⟨_, hassigned, rfl⟩ := hgroups
        cases hassigned with
        | @cons _ group _ later hgroup hlater =>
          obtain ⟨hlength, hunits⟩ := hgroup.asked.units (by simpa using hcountable)
          have hdistinct : (group.map Claim.node).Nodup := by
            have hin : group.Sublist (before ++ group :: later).flatten :=
              List.sublist_flatten_of_mem (by simp)
            exact (topologyHolds_iff.mp hup).1.sublist (hin.map Claim.node)
          obtain ⟨same, hperm, hsublist⟩ := exists_ranked hdistinct (hmem hgroup) hunits
          refine ⟨before ++ [same] ++ later, ⟨same, hsublist, fun claim hclaim => ?_, ?_, later, hlater, rfl⟩,
            topologyHolds_mono ?_ hup⟩
          · have hin := hperm.mem_iff.mp hclaim
            exact ⟨hunits claim hin, (hgroup.placeable claim hin).covered⟩
          · rw [List.nil_append, hperm.length_eq]
            exact hlength
          · rw [List.append_assoc]
            exact List.rel_append (refl_subperm before) (.cons hperm.subperm (refl_subperm later))

end Needs

/-- What serves the needs may be given to them. -/
theorem assigned_of_serves {allowed : List NodeId} {need : Need} {group : List Claim}
    (h : Serves ctx (some allowed) need group) : Assigned ctx allowed need group := by
  have hasked := groupFor_of_serves h
  refine ⟨hasked, fun claim hclaim => ?_⟩
  obtain ⟨found, hfound, hmem⟩ := h.candidate claim hclaim
  rw [placeable_iff hfound (hasked.quantity hclaim), List.mem_filter, decide_eq_true_eq]
  exact ⟨hmem, h.within claim hclaim allowed rfl⟩

theorem yields_needs_assigned (allowed : List NodeId) {search : MachineSearch}
    (hsearch : search.picked = blank ctx.request.needs) :
    Yields search (MachineSearch.needs ctx allowed 0 ctx.request.needs) fun done after =>
      done = true → Assignment ctx allowed after.picked := by
  rintro done after hafter rfl
  have hserved := (filling_needs allowed 0 _ search (by simp [hsearch, blank]) _ _ hafter).served rfl
  have hsound := searches_needs allowed 0 _ search (by simp [hsearch, blank, AllGranted]) _ _ hafter
  rw [List.drop_zero] at hserved
  exact assignment_iff.mpr ⟨hserved.imp fun _ _ => assigned_of_serves, hsound.2 rfl⟩

/-- The search of a machine ends, spends no more than its budget, reports only assignments of all
needs, and where it reports none it leaves nothing selected, and with budget left there is none. -/
theorem search_exact (ctx : SelectCtx) (allowed : List NodeId) (trace : TopologyTrace) (budget : ℕ) :
    match MachineSearch.needs ctx allowed 0 ctx.request.needs
      ⟨trace, budget, ctx.request.needs.map fun _ => []⟩ with
    | .ok true after => Assignment ctx allowed after.picked ∧ after.remaining ≤ budget
    | .ok false after => after.picked = (ctx.request.needs.map fun _ => []) ∧
        (0 < after.remaining → ¬∃ groups, Assignment ctx allowed groups) ∧ after.remaining ≤ budget
    | .error _ after => after.remaining ≤ budget := by
  have hspends := @spends_needs ctx 0 allowed ctx.request.needs
    ⟨trace, budget, ctx.request.needs.map fun _ => []⟩
  have hassigned := @yields_needs_assigned ctx allowed
    ⟨trace, budget, ctx.request.needs.map fun _ => []⟩ rfl
  have htried := @tried_needs ctx allowed ctx.request.needs []
    ⟨trace, budget, ctx.request.needs.map fun _ => []⟩ rfl
  unfold after at hspends
  cases hresult : MachineSearch.needs ctx allowed 0 ctx.request.needs
      ⟨trace, budget, ctx.request.needs.map fun _ => []⟩ with
  | error e after =>
    rw [hresult] at hspends
    exact hspends
  | ok done after =>
    rw [hresult] at hspends
    cases done with
    | true => exact ⟨hassigned true after hresult rfl, hspends⟩
    | false =>
      have hfailed := htried false after hresult
      refine ⟨hfailed.restored rfl, ?_, hspends⟩
      rintro hleft ⟨groups, hgroups⟩
      obtain ⟨hplaced, hholds⟩ := assignment_iff.mp hgroups
      exact hfailed.exhausted rfl hleft groups ⟨groups, hplaced, rfl⟩ hholds

end MachineSearch
end Select
end Archon.Kernel
