import Archon.Kernel.Dispatch

/-! The lease and binding tables: what each entry satisfies in every state the
cluster reaches, what it keeps for life, and the tree that delegation spans. -/
namespace Archon.Kernel
open Cluster Fallible

/-! Admitted claims are resolved: distinct nodes, no empty quantity. -/

theorem resolveClaims_ok {graph : Graph} {seen : List NodeId} {claims resolved : List Claim}
    (h : resolveClaims graph seen claims = .ok resolved) :
    resolved.map Claim.node = claims.map Claim.node ∧
      (∀ claim ∈ resolved, claim.node ∉ seen) ∧ DistinctNodes resolved ∧
      ∀ claim ∈ resolved, claim.quantity.isEmpty = false := by
  induction claims generalizing seen resolved with
  | nil =>
    cases h
    simp [DistinctNodes]
  | cons claim rest ih =>
    simp only [resolveClaims, check_bind_ok, refuseIf_ok, check_pure_ok] at h
    obtain ⟨_, hseen, head, hhead, tail, htail, rfl⟩ := h
    obtain ⟨hnode, -, hpositive, -⟩ := resolveClaim_ok hhead
    obtain ⟨hnodes, hunseen, hdistinct, hresolved⟩ := ih htail
    refine ⟨by simp [hnode, hnodes], ?_, ?_, ?_⟩
    · intro found hmem
      rcases List.mem_cons.mp hmem with rfl | hmem
      · rwa [hnode]
      · exact fun hin => hunseen found hmem (List.mem_cons_of_mem _ hin)
    · refine List.nodup_cons.mpr ⟨fun hin => ?_, hdistinct⟩
      obtain ⟨found, hmem, heq⟩ := List.mem_map.mp hin
      exact hunseen found hmem (by rw [heq, hnode]; exact List.mem_cons_self)
    · intro found hmem
      rcases List.mem_cons.mp hmem with rfl | hmem
      · exact hpositive
      · exact hresolved found hmem

/-- Resolving claims that are already resolved changes nothing. -/
theorem mapM_resolveClaim_ok {graph : Graph} {claims resolved : List Claim}
    (h : claims.mapM (resolveClaim graph) = .ok resolved)
    (hresolved : ∀ claim ∈ claims, claim.quantity.isEmpty = false) : resolved = claims := by
  rw [mapM_ok] at h
  induction h with
  | nil => rfl
  | cons hhead _ ih =>
    obtain ⟨-, -, -, hsame⟩ := resolveClaim_ok hhead
    rw [hsame (hresolved _ List.mem_cons_self),
      ih fun claim hmem => hresolved claim (List.mem_cons_of_mem _ hmem)]

/-! Entries in motion. -/

/-- What a lease keeps for life. It never becomes live or reserved again. -/
structure Lease.Moves (lease next : Lease) : Prop where
  id : next.id = lease.id
  parent : next.parent = lease.parent
  claims : next.allocation.claims = lease.allocation.claims
  live : next.state.isLive → lease.state.isLive
  reserved : next.state = .reserved → lease.state = .reserved

theorem Lease.Moves.refl (lease : Lease) : lease.Moves lease :=
  ⟨rfl, rfl, rfl, fun h => h, fun h => h⟩

theorem Lease.Moves.trans {first second third : Lease} (h : first.Moves second)
    (h' : second.Moves third) : first.Moves third :=
  ⟨h'.id.trans h.id, h'.parent.trans h.parent, h'.claims.trans h.claims,
    fun hlive => h.live (h'.live hlive), fun hstate => h.reserved (h'.reserved hstate)⟩

/-- What a binding keeps for life. A handle is never taken back and a closed
binding never opens again. -/
structure Binding.Moves (binding next : Binding) : Prop where
  id : next.id = binding.id
  lease : next.lease = binding.lease
  node : next.node = binding.node
  provider : next.provider = binding.provider
  scope : next.scope = binding.scope
  fence : next.fence = binding.fence
  handle : binding.providerHandle.isSome → next.providerHandle.isSome
  closed : binding.state.isClosed → next.state.isClosed

theorem Binding.Moves.refl (binding : Binding) : binding.Moves binding :=
  ⟨rfl, rfl, rfl, rfl, rfl, rfl, fun h => h, fun h => h⟩

theorem Binding.Moves.trans {first second third : Binding} (h : first.Moves second)
    (h' : second.Moves third) : first.Moves third :=
  ⟨h'.id.trans h.id, h'.lease.trans h.lease, h'.node.trans h.node, h'.provider.trans h.provider,
    h'.scope.trans h.scope, h'.fence.trans h.fence, fun hs => h'.handle (h.handle hs),
    fun hc => h'.closed (h.closed hc)⟩

theorem Binding.Moves.was_open {binding next : Binding} (h : binding.Moves next)
    (hopen : next.state.isClosed = false) : binding.state.isClosed = false := by
  cases hclosed : binding.state.isClosed with
  | false => rfl
  | true =>
    rw [h.closed hclosed] at hopen
    cases hopen

/-! Well-formed tables. -/

structure LeasesWellFormed (leases : OrdMap LeaseId Lease) : Prop where
  key : ∀ {id : LeaseId} {lease : Lease}, leases[id]? = some lease → lease.id = id
  known : ∀ {id : LeaseId} {lease : Lease}, leases[id]? = some lease → ∀ p, lease.parent = some p →
    ∃ parent, leases[p]? = some parent
  ranked : ∃ rank : LeaseId → Nat, ∀ (id : LeaseId) (lease : Lease), leases[id]? = some lease →
    rank id < leases.size ∧ ∀ p, lease.parent = some p → rank p < rank id
  distinct : ∀ {id : LeaseId} {lease : Lease}, leases[id]? = some lease → DistinctNodes lease.allocation.claims
  resolved : ∀ {id : LeaseId} {lease : Lease}, leases[id]? = some lease →
    ∀ claim ∈ lease.allocation.claims, claim.quantity.isEmpty = false
  reserved : ∀ {id : LeaseId} {lease : Lease}, leases[id]? = some lease →
    lease.state = .reserved → lease.parent = none

/-- Every binding is held by a lease without parent, on a node it claims. -/
structure BindingsWellFormed (leases : OrdMap LeaseId Lease) (bindings : OrdMap BindingId Binding) :
    Prop where
  key : ∀ {id : BindingId} {binding : Binding}, bindings[id]? = some binding → binding.id = id
  held : ∀ {id : BindingId} {binding : Binding}, bindings[id]? = some binding →
    ∃ lease, leases[binding.lease]? = some lease ∧ lease.parent = none ∧
      binding.node ∈ lease.allocation.claims.map Claim.node

structure Cluster.WellFormed (c : Cluster) : Prop where
  leases : LeasesWellFormed c.leases
  bindings : BindingsWellFormed c.leases c.bindings

theorem LeasesWellFormed.empty : LeasesWellFormed ∅ := by
  constructor <;> simp

theorem BindingsWellFormed.empty (leases : OrdMap LeaseId Lease) : BindingsWellFormed leases ∅ := by
  constructor <;> simp

theorem wellFormed_new : Cluster.new.WellFormed := ⟨.empty, .empty _⟩

/-! The delegation tree. -/

namespace Cluster
variable {c c' : Cluster}

theorem mem_sortedChildren (h : LeasesWellFormed c.leases) {parent child : LeaseId} :
    child ∈ c.sortedChildren parent ↔
      ∃ lease, c.leases[child]? = some lease ∧ lease.parent = some parent := by
  simp only [sortedChildren, children, mem_sortAsc, List.mem_map, List.mem_filter, OrdMap.mem_vals,
    decide_eq_true_eq]
  constructor
  · rintro ⟨lease, ⟨⟨k, hk⟩, hparent⟩, rfl⟩
    exact ⟨lease, (h.key hk).symm ▸ hk, hparent⟩
  · rintro ⟨lease, hlease, hparent⟩
    exact ⟨lease, ⟨⟨child, hlease⟩, hparent⟩, h.key hlease⟩

theorem ranked_sortedChildren (h : LeasesWellFormed c.leases) :
    ∃ rank, Forest.Ranked c.sortedChildren rank c.leases.size := by
  obtain ⟨rank, hrank⟩ := h.ranked
  refine ⟨rank, fun parent child hchild => ?_⟩
  obtain ⟨lease, hlease, hparent⟩ := (mem_sortedChildren h).mp hchild
  exact ⟨(hrank child lease hlease).2 parent hparent, (hrank child lease hlease).1⟩

theorem mem_descendantsPostorder (h : LeasesWellFormed c.leases) {id descendant : LeaseId} :
    descendant ∈ c.descendantsPostorder id ↔ Forest.Below c.sortedChildren id descendant := by
  obtain ⟨rank, hrank⟩ := ranked_sortedChildren h
  exact Forest.mem_walk_iff hrank le_rfl

theorem not_mem_own_descendants (h : LeasesWellFormed c.leases) (id : LeaseId) :
    id ∉ c.descendantsPostorder id := by
  obtain ⟨rank, hrank⟩ := ranked_sortedChildren h
  rw [mem_descendantsPostorder h]
  exact hrank.irrefl

/-- Descendants are closed under delegation, starting from the lease itself. -/
theorem mem_descendants_of_parent (h : LeasesWellFormed c.leases) {id p child : LeaseId}
    {lease : Lease} (hlease : c.leases[child]? = some lease) (hparent : lease.parent = some p)
    (hp : p = id ∨ p ∈ c.descendantsPostorder id) : child ∈ c.descendantsPostorder id := by
  rw [mem_descendantsPostorder h] at *
  have hchild : child ∈ c.sortedChildren p := (mem_sortedChildren h).mpr ⟨lease, hlease, hparent⟩
  rcases hp with rfl | hp
  · exact .single hchild
  · exact .tail hp hchild

/-! Ended trees. -/

theorem endLease_endLease (keeps : LeaseState → Bool) (final : LeaseState) (lease : Lease) :
    endLease keeps final (endLease keeps final lease) = endLease keeps final lease := by
  unfold endLease
  by_cases hkeeps : keeps lease.state <;> simp [hkeeps]

/-- The descent ends each descendant once and the lease itself last. -/
theorem get_endTree (h : LeasesWellFormed c.leases) (id : LeaseId) (keeps : LeaseState → Bool)
    (final : LeaseState) (last : Lease → Lease) (a : LeaseId) :
    (c.endTree id keeps final last)[a]? =
      if a = id then c.leases[a]?.map last
      else if a ∈ c.descendantsPostorder id then c.leases[a]?.map (endLease keeps final)
      else c.leases[a]? := by
  rw [endTree, OrdMap.get_modify, OrdMap.get_foldl_modify _ (endLease_endLease keeps final)]
  by_cases ha : a = id
  · subst ha
    simp [not_mem_own_descendants h]
  · have ha' : id ≠ a := fun he => ha he.symm
    simp [ha, ha']

theorem endLease_moves {keeps : LeaseState → Bool} {final : LeaseState}
    (hfinal : final.isLive = false) (lease : Lease) : lease.Moves (endLease keeps final lease) := by
  unfold endLease
  split
  · exact .refl lease
  · refine ⟨rfl, rfl, rfl, by simp [hfinal], ?_⟩
    rintro rfl
    cases hfinal

theorem finalState_not_live (code : Int32) : (finalState code).isLive = false := by
  unfold finalState
  split <;> rfl

/-- The state a tree ends in is terminal, for the lease and its descendants. -/
theorem Ended.terminal {id : LeaseId} {lease : Lease} {command : Command}
    (h : Ended c id lease command keeps final last) :
    final.isLive = false ∧ ∀ before : Lease, before.Moves (last before) := by
  cases h with
  | fail => exact ⟨rfl, endLease_moves rfl⟩
  | revoke => exact ⟨rfl, endLease_moves rfl⟩
  | expire => exact ⟨rfl, fun lease => ⟨rfl, rfl, rfl, by simp [LeaseState.isLive], by simp⟩⟩
  | @complete code =>
    refine ⟨finalState_not_live code, fun lease => ⟨rfl, rfl, rfl, ?_, ?_⟩⟩
    · simp [finalState_not_live]
    · intro hstate
      have hlive := finalState_not_live code
      simp only at hstate
      rw [hstate] at hlive
      cases hlive

end Cluster
end Archon.Kernel
