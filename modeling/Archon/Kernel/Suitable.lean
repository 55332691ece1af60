import Archon.Kernel.Unfailing

/-! Candidates are exactly the nodes that suit a need: known nodes of its kind
with its attributes, one contract over what it asks for, no block above them and
room left. Placement looks at nothing else. -/
namespace Archon.Kernel
open Fallible Select

section Contracts
variable {graph : Graph} {node : NodeId} {required : ClaimBinding}

theorem selectClaimBindings_same {entries : List (CapacityDimension × UInt64)}
    (hall : ∀ entry ∈ entries, entry.2 ≠ 0 → graph.claimBinding node entry.1 = some required)
    {selected : Option ClaimBinding} (hselected : ∀ existing ∈ selected, existing = required) :
    ∃ result, entries.foldlM (graph.selectClaimBinding node) selected = .ok result ∧
      (∀ existing ∈ result, existing = required) ∧
      ((selected ≠ none ∨ ∃ entry ∈ entries, entry.2 ≠ 0) → result = some required) := by
  induction entries generalizing selected with
  | nil =>
    refine ⟨selected, rfl, hselected, ?_⟩
    rintro (hsome | ⟨_, hnone, -⟩)
    · obtain ⟨existing, rfl⟩ := Option.ne_none_iff_exists'.mp hsome
      rw [hselected existing rfl]
    · cases hnone
  | cons entry rest ih =>
    have hrest : ∀ other ∈ rest, other.2 ≠ 0 → graph.claimBinding node other.1 = some required :=
      fun other hother => hall other (List.mem_cons_of_mem _ hother)
    by_cases hzero : entry.2 = 0
    · obtain ⟨result, hresult, hsame, hsome⟩ := ih hrest hselected
      refine ⟨result, ?_, hsame, fun h => hsome (h.imp_right ?_)⟩
      · rw [List.foldlM_cons, Graph.selectClaimBinding, if_pos hzero]
        exact hresult
      · rintro ⟨other, hother, hpositive⟩
        rcases List.mem_cons.mp hother with rfl | hother
        · exact absurd hzero hpositive
        · exact ⟨other, hother, hpositive⟩
    · have hcontract := hall entry List.mem_cons_self hzero
      obtain ⟨result, hresult, hsame, hsome⟩ := @ih hrest (some required) (by simp)
      refine ⟨result, ?_, hsame, fun _ => hsome (.inl (by simp))⟩
      rw [List.foldlM_cons, check_bind_ok]
      refine ⟨some required, ?_, hresult⟩
      rw [Graph.selectClaimBinding, if_neg hzero]
      simp only [check_bind_ok, okOr_ok]
      refine ⟨required, hcontract, ?_⟩
      cases selected with
      | none => rfl
      | some existing =>
        simp only [check_bind_ok, refuseIf_ok, not_not, check_pure_ok]
        exact ⟨(), by rw [hselected existing rfl], by rw [hselected existing rfl]⟩

theorem claimBindingForQuantity_of_all {quantity : Quantity} (hknown : graph.node node ≠ none)
    (hpositive : ∃ d, quantityGet quantity d ≠ 0)
    (hall : ∀ d, quantityGet quantity d ≠ 0 → graph.claimBinding node d = some required) :
    graph.claimBindingForQuantity node quantity = .ok required := by
  have hentries : ∀ entry ∈ quantity.toList, quantityGet quantity entry.1 = entry.2 := by
    intro entry hentry
    rw [quantityGet, Std.ExtTreeMap.mem_toList_iff_getElem?_eq_some.mp hentry]
    rfl
  obtain ⟨result, hresult, -, hsome⟩ := @selectClaimBindings_same graph node required quantity.toList
    (fun entry hentry hne => hall entry.1 (by rwa [hentries entry hentry])) none (by simp)
  have hselected : result = some required := by
    refine hsome (.inr ?_)
    obtain ⟨d, hd⟩ := hpositive
    cases hentry : quantity[d]? with
    | none => simp [quantityGet, hentry] at hd
    | some amount =>
      refine ⟨(d, amount), Std.ExtTreeMap.mem_toList_iff_getElem?_eq_some.mpr hentry, ?_⟩
      simpa [quantityGet, hentry] using hd
  simp only [Graph.claimBindingForQuantity, check_bind_ok, refuseIf_ok, okOr_ok]
  exact ⟨(), hknown, result, hresult, hselected⟩

end Contracts

section Candidates
variable {graph : Graph} {occupancy : Occupancy} {need : Need} {quarantine : List NodeId}

theorem offers_known {id : NodeId} (h : graph.node id ≠ none) :
    ∃ keep, offers graph occupancy need quarantine id = .ok keep := by
  obtain ⟨found, hfound⟩ := Option.ne_none_iff_exists'.mp h
  have hcover : ∀ claim : Claim, claim.node = id → ∃ covered, occupancy.canCover graph claim = .ok covered := by
    rintro claim rfl
    simp only [Occupancy.canCover, Occupancy.remaining, check_bind_ok, okOr_ok, check_pure_ok]
    exact ⟨_, _, ⟨found, hfound, rfl⟩, rfl⟩
  simp only [offers, check_bind_ok, okOr_ok]
  cases graph.claimBindingForQuantity id (needUnit need) with
  | error e => exact ⟨false, found, hfound, rfl⟩
  | ok required =>
    by_cases hblocked : isBlocked graph quarantine found.id
    · exact ⟨false, found, hfound, by simp [hblocked]⟩
    · by_cases hfilters : need.filters.any fun filter => found.attrs[filter.key]? ≠ some filter.value
      · refine ⟨false, found, hfound, ?_⟩
        rw [if_neg hblocked, if_pos hfilters]
        rfl
      · obtain ⟨covered, hcovered⟩ := hcover ⟨id, needUnit need⟩ rfl
        refine ⟨covered, found, hfound, ?_⟩
        rw [if_neg hblocked, if_neg hfilters]
        exact hcovered

theorem candidates_total (hfiled : graph.Filed) (hkind : need.kind ≠ .dataObject) :
    ∃ found, candidates graph occupancy need quarantine = .ok found := by
  have hkeep : ∀ ids : List NodeId, (∀ id ∈ ids, graph.node id ≠ none) →
      ∃ found, keepCandidates (offers graph occupancy need quarantine) ids = .ok found := by
    intro ids hids
    induction ids with
    | nil => exact ⟨[], rfl⟩
    | cons id rest ih =>
      obtain ⟨kept, hkept⟩ := ih fun other hother => hids other (List.mem_cons_of_mem _ hother)
      obtain ⟨keep, hkeep⟩ := @offers_known _ occupancy need quarantine _ (hids id List.mem_cons_self)
      simp only [keepCandidates, check_bind_ok, check_pure_ok]
      exact ⟨_, keep, hkeep, kept, hkept, rfl⟩
  simp only [candidates, check_bind_ok, refuseIf_ok]
  obtain ⟨found, hfound⟩ := hkeep (graph.nodesOfClass need.kind) fun id hid => by
    have hkind := (hfiled.byClass _ _).mp hid
    obtain ⟨node, hnode, -⟩ := Option.any_eq_true _ _ |>.mp hkind
    simp [hnode]
  exact ⟨found, (), hkind, hfound⟩

theorem candidates_kind {found : List NodeId}
    (h : candidates graph occupancy need quarantine = .ok found) : need.kind ≠ .dataObject := by
  simp only [candidates, check_bind_ok, refuseIf_ok] at h
  obtain ⟨_, hkind, -⟩ := h
  exact hkind

theorem offers_of_suits (hfiled : graph.Filed) {node : NodeId}
    (h : Suits graph occupancy quarantine need ⟨node, needUnit need⟩) :
    node ∈ graph.nodesOfClass need.kind ∧ offers graph occupancy need quarantine node = .ok true := by
  obtain ⟨item, hitem, hkind, hfilters, hroom⟩ := h.fits
  obtain ⟨required, hpositive, hcontract⟩ := h.contract
  refine ⟨?_, Cluster.offers_ok.mpr ⟨item, required, hitem, ?_, ?_, hfilters, ?_⟩⟩
  · rw [hfiled.byClass]
    simp [Graph.hasKind, hitem, hkind]
  · exact claimBindingForQuantity_of_all (by simp [hitem]) hpositive hcontract
  · rw [hfiled.key _ _ hitem]
    exact not_isBlocked_iff.mpr h.clear
  · exact Occupancy.canCover_ok.mpr ⟨item, hitem, hroom⟩

theorem offered_iff {ctx : SelectCtx} (hfiled : ctx.graph.Filed) {allowed : Option (List NodeId)}
    {node : NodeId} :
    Offered ctx allowed need node ↔ need.kind ≠ .dataObject ∧
      Suits ctx.graph ctx.occupancy ctx.quarantine need ⟨node, needUnit need⟩ ∧
      ∀ nodes ∈ allowed, node ∈ nodes := by
  constructor
  · rintro ⟨found, hfound, hmem, hallowed⟩
    exact ⟨candidates_kind hfound, suits_of_candidate hfiled hfound hmem rfl, hallowed⟩
  · rintro ⟨hkind, hsuits, hallowed⟩
    obtain ⟨found, hfound⟩ := @candidates_total _ ctx.occupancy _ ctx.quarantine hfiled hkind
    exact ⟨found, hfound, (Cluster.mem_candidates hfound node).mpr (offers_of_suits hfiled hsuits),
      hallowed⟩

end Candidates
end Archon.Kernel
