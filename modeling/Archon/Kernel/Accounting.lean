import Archon.Kernel.Budget
import Archon.Kernel.Enforced

/-! Accounting. Occupancy counts the occupying leases whose parent does not occupy, usage those
that have no parent. The two agree as long as no child goes on under a parent that has stopped:
a child that is orphaned occupies and is charged to nobody. -/
namespace Archon.Kernel.Cluster
open Fallible Admit Holdings

/-- What all owners are charged of a class and dimension. -/
def usageTotal (c : Cluster) (kind : ResourceClass) (d : CapacityDimension) : ℕ :=
  ((OrdMap.vals (ownerUsage c.graph c.leases c.openBindingLeases)).map fun usage =>
    (quantityGet (usage[kind]?.getD ∅) d).toNat).sum

/-- What is occupied on all nodes of a class. -/
def occupiedTotal (c : Cluster) (kind : ResourceClass) (d : CapacityDimension) : ℕ :=
  (((OrdMap.vals c.graph.nodes).filter fun node => node.kind = kind).map fun node =>
    (quantityGet (c.occupancy.usedOn node.id) d).toNat).sum

/-- All that is occupied is charged, and nothing else. -/
def UsageMatches (c : Cluster) : Prop :=
  ∀ kind d, c.usageTotal kind d = c.occupiedTotal kind d

/-- A live child of the lease claims something. -/
def delegates (c : Cluster) (id : LeaseId) : Bool :=
  (OrdMap.vals c.leases).any fun child =>
    child.parent = some id && child.state.isLive && !child.allocation.claims.isEmpty

/-- Every binding of the lease, `id` apart, is closed. -/
def lastOpen (c : Cluster) (id : BindingId) (lease : LeaseId) : Bool :=
  (OrdMap.vals c.bindings).all fun other =>
    other.id = id || other.lease ≠ lease || other.state.isClosed

/-- Whether an event takes the last hold of a delegating lease: it closes the last open binding
when the lease has ended, or ends the lease when all its bindings are closed. -/
def orphans (c : Cluster) : Event → Bool
  | .apply (.recordBindingReleased id session fence)
  | .apply (.recordBindingFenced id session fence) =>
    match c.acknowledged id session fence with
    | .ok binding => c.leases[binding.lease]?.all (fun lease => !lease.state.isLive) &&
        c.lastOpen id binding.lease && c.delegates binding.lease
    | .error _ => false
  | .apply (.recordBindingFailed id session _ fence) =>
    match c.acknowledged id session fence with
    | .ok binding => binding.state.isClosed && c.lastOpen id binding.lease &&
        c.delegates binding.lease
    | .error _ => false
  | _ => false

/-- An occupying lease that claims something has an occupying parent, if any. -/
def Rooted (c : Cluster) : Prop :=
  ∀ (id p : LeaseId) (lease : Lease), c.leases[id]? = some lease → c.occupies id →
    lease.parent = some p → lease.allocation.claims ≠ [] → c.occupies p

/-- The form that steps preserve: the parent is active, or has ended with a binding still open. -/
def Seated (c : Cluster) : Prop :=
  ∀ (id p : LeaseId) (lease : Lease), c.leases[id]? = some lease → lease.state.isLive →
    lease.parent = some p → lease.allocation.claims ≠ [] →
    ∃ parent, c.leases[p]? = some parent ∧
      (parent.state = .active ∨ parent.state.isLive = false ∧ c.openBindings p)

section Step
variable {c c' : Cluster} {command : Command}

theorem Seated.rooted (h : WellFormed c) (hseated : Seated c) : Rooted c := by
  intro id p lease hlease hoccupies hparent hclaims
  have hlive := (occupies_child_iff h hlease hparent).mp hoccupies
  obtain ⟨parent, hp, hactive | ⟨-, hopen⟩⟩ := hseated id p lease hlease hlive hparent hclaims
  · exact (occupies_iff h.leases).mpr ⟨parent, hp, .inl (by simp [hactive, LeaseState.isLive])⟩
  · exact (occupies_iff h.leases).mpr ⟨parent, hp, .inr hopen⟩

theorem delegates_iff {id : LeaseId} : c.delegates id ↔ ∃ (child : LeaseId) (lease : Lease),
    c.leases[child]? = some lease ∧ lease.parent = some id ∧ lease.state.isLive ∧
      lease.allocation.claims ≠ [] := by
  simp only [delegates, List.any_eq_true, OrdMap.mem_vals, Bool.and_eq_true, decide_eq_true_eq,
    Bool.not_eq_true', List.isEmpty_eq_false_iff]
  constructor
  · rintro ⟨lease, ⟨child, hchild⟩, ⟨hparent, hlive⟩, hclaims⟩
    exact ⟨child, lease, hchild, hparent, hlive, hclaims⟩
  · rintro ⟨child, lease, hchild, hparent, hlive, hclaims⟩
    exact ⟨lease, ⟨child, hchild⟩, ⟨hparent, hlive⟩, hclaims⟩

theorem lastOpen_eq_false (h : WellFormed c) {id : BindingId} {lease : LeaseId} :
    c.lastOpen id lease = false ↔ ∃ (other : BindingId) (binding : Binding),
      c.bindings[other]? = some binding ∧ other ≠ id ∧ binding.lease = lease ∧
        binding.state.isClosed = false := by
  simp only [lastOpen, List.all_eq_false, OrdMap.mem_vals, Bool.or_eq_true, decide_eq_true_eq,
    not_or, not_not, Bool.not_eq_true]
  constructor
  · rintro ⟨binding, ⟨other, hother⟩, ⟨hne, hlease⟩, hopen⟩
    exact ⟨other, binding, hother, h.bindings.key hother ▸ hne, hlease, hopen⟩
  · rintro ⟨other, binding, hother, hne, hlease, hopen⟩
    exact ⟨binding, ⟨other, hother⟩, ⟨(h.bindings.key hother).symm ▸ hne, hlease⟩, hopen⟩

theorem openBindings_kept (hstep : Step c command c') {id : BindingId} {binding : Binding}
    (hbinding : c.bindings[id]? = some binding) (hopen : binding.state.isClosed = false)
    (hkept : ¬c.ProvesTeardown id binding command) : c'.openBindings binding.lease := by
  obtain ⟨after, hafter, hmoves⟩ := (bindings_evolve hstep).kept id binding hbinding
  refine openBindings_iff.mpr ⟨id, after, hafter, hmoves.lease, ?_⟩
  by_contra hclosed
  rw [Bool.not_eq_false] at hclosed
  exact hkept (closing_step hstep hbinding hopen hafter hclosed)

theorem teardown_spares (h : WellFormed c) {id : BindingId} {binding : Binding} {lease : Lease}
    (hbinding : c.bindings[id]? = some binding) (hteardown : c.ProvesTeardown id binding command)
    (hspared : c.orphans (.apply command) = false) (hlease : c.leases[binding.lease]? = some lease)
    (hended : lease.state.isLive = false) (hdelegates : c.delegates binding.lease) :
    ∃ (other : BindingId) (kept : Binding), c.bindings[other]? = some kept ∧
      kept.lease = binding.lease ∧ kept.state.isClosed = false ∧
      ¬c.ProvesTeardown other kept command := by
  obtain ⟨machine, session, hmachine, hsession, hcommand⟩ := hteardown
  have hack : c.acknowledged id session binding.fence = .ok binding :=
    acknowledged_ok.mpr ⟨hbinding, ⟨machine, requireSession_ok.mpr ⟨hmachine, hsession⟩⟩, rfl⟩
  have hlast : c.lastOpen id binding.lease = false := by
    rcases hcommand with rfl | rfl <;>
      simpa [orphans, hack, hlease, hended, hdelegates] using hspared
  obtain ⟨other, kept, hother, hne, hsame, hopen⟩ := (lastOpen_eq_false h).mp hlast
  refine ⟨other, kept, hother, hsame, hopen, ?_⟩
  rintro ⟨_, _, -, -, hagain⟩
  rcases hcommand with rfl | rfl <;> rcases hagain with hagain | hagain <;>
    simp only [Command.recordBindingReleased.injEq, Command.recordBindingFenced.injEq,
      reduceCtorEq] at hagain <;> exact hne hagain.1.symm

/-- A step that orphans nobody leaves every child its parent. -/
theorem seated_step (h : WellFormed c) (hseated : Seated c) (hstep : Step c command c')
    (hspared : c.orphans (.apply command) = false) : Seated c' := by
  intro id p after hafter hlive hparent hclaims
  have hevolve := leases_evolve h.leases hstep
  rcases hevolve.origin hafter with ⟨lease, hlease, hmoves⟩ | ⟨-, -, hadmitted⟩
  · -- a child that was there before
    have hunder : lease.parent = some p := hmoves.parent ▸ hparent
    have hclaimed : lease.allocation.claims ≠ [] := hmoves.claims ▸ hclaims
    have hdelegates := delegates_iff.mpr ⟨id, lease, hlease, hunder, hmoves.live hlive, hclaimed⟩
    obtain ⟨parent, hp, hstands⟩ := hseated id p lease hlease (hmoves.live hlive) hunder hclaimed
    obtain ⟨next, hnext, hpmoves⟩ := hevolve.kept p parent hp
    rcases hstands with hactive | ⟨hended, hopen⟩
    · rcases parent_kept h hstep hafter hlive hparent hp hactive with
        ⟨kept, hkept, hstill⟩ | ⟨bindingId, session, reason, fence, binding, rfl, hack, rfl⟩
      · exact ⟨kept, hkept, .inl hstill⟩
      · -- the provider fails the parent, but some binding of it stays open
        refine ⟨next, hnext, .inr ⟨?_, ?_⟩⟩
        · rw [lost_lease h hack hstep, OrdMap.get_modify, if_pos rfl, hp, Option.map_some,
            Option.some.injEq] at hnext
          subst hnext
          simp [endLease, hactive, endedKeeps, LeaseState.isLive]
        · obtain ⟨other, kept, hother, hsame, hopen⟩ :
              ∃ (other : BindingId) (kept : Binding), c.bindings[other]? = some kept ∧
                kept.lease = binding.lease ∧ kept.state.isClosed = false := by
            by_cases hclosed : binding.state.isClosed
            · have hlast : c.lastOpen bindingId binding.lease = false := by
                simpa [orphans, hack, hclosed, hdelegates] using hspared
              obtain ⟨other, kept, hother, -, hsame, hopen⟩ := (lastOpen_eq_false h).mp hlast
              exact ⟨other, kept, hother, hsame, hopen⟩
            · exact ⟨bindingId, binding, (acknowledged_ok.mp hack).1, rfl, by simpa using hclosed⟩
          refine hsame ▸ openBindings_kept hstep hother hopen ?_
          rintro ⟨_, _, -, -, hnone | hnone⟩ <;> cases hnone
    · have hstopped : next.state.isLive = false := by
        by_contra hagain
        rw [Bool.not_eq_false] at hagain
        simp [hpmoves.live hagain] at hended
      refine ⟨next, hnext, .inr ⟨hstopped, ?_⟩⟩
      obtain ⟨bindingId, binding, hbinding, rfl, hstate⟩ := openBindings_iff.mp hopen
      by_cases hteardown : c.ProvesTeardown bindingId binding command
      · obtain ⟨other, kept, hother, hsame, hkept, hnot⟩ :=
          teardown_spares h hbinding hteardown hspared hp hended hdelegates
        exact hsame ▸ openBindings_kept hstep hother hkept hnot
      · exact openBindings_kept hstep hbinding hstate hteardown
  · -- a child that was just admitted
    obtain ⟨parent, hp, hactive, -⟩ := hadmitted.child hparent
    rcases parent_kept h hstep hafter hlive hparent hp hactive with
      ⟨kept, hkept, hstill⟩ | ⟨_, _, _, _, _, rfl, -, -⟩
    · exact ⟨kept, hkept, .inl hstill⟩
    · cases hadmitted

theorem openBindings_modify (h : WellFormed c) {id : BindingId} {lease : LeaseId}
    (hlast : c.lastOpen id lease) {move : Binding → Binding}
    (hclosed : ∀ binding, c.bindings[id]? = some binding → (move binding).state.isClosed) :
    ¬{ c with bindings := c.bindings.modify id move }.openBindings lease := by
  intro hopen
  obtain ⟨other, after, hafter, hlease, hstate⟩ := openBindings_iff.mp hopen
  simp only [OrdMap.get_modify] at hafter
  split at hafter
  · subst id
    obtain ⟨binding, hbinding, rfl⟩ := Option.map_eq_some_iff.mp hafter
    rw [hclosed binding hbinding] at hstate
    cases hstate
  · rename_i hne
    have hfalse := (lastOpen_eq_false h).mpr ⟨other, after, hafter, fun heq => hne heq.symm, hlease, hstate⟩
    rw [hfalse] at hlast
    cases hlast

theorem not_rooted {p : LeaseId} (h : WellFormed c') (hdelegates : c'.delegates p)
    (hended : ∀ lease, c'.leases[p]? = some lease → lease.state.isLive = false)
    (hclosed : ¬c'.openBindings p) : ¬Rooted c' := by
  intro hrooted
  obtain ⟨child, lease, hchild, hparent, hlive, hclaims⟩ := delegates_iff.mp hdelegates
  have hoccupies := (occupies_child_iff h hchild hparent).mpr hlive
  obtain ⟨parent, hp, hholds | hopen⟩ :=
    (occupies_iff h.leases).mp (hrooted child p lease hchild hoccupies hparent hclaims)
  · rw [hended parent hp] at hholds
    cases hholds
  · exact hclosed hopen

theorem orphans_step (h : WellFormed c) (horphans : c.orphans (.apply command)) :
    ∃ c', Step c command c' ∧ ¬Rooted c' := by
  have hclosing : ∀ {id : BindingId} {binding : Binding} {move : Binding → Binding},
      c.bindings[id]? = some binding → Rebound c id binding command move →
      (∀ binding, (move binding).state.isClosed) →
      c.leases[binding.lease]?.all (fun lease => !lease.state.isLive) →
      c.lastOpen id binding.lease → c.delegates binding.lease →
      ∃ c', Step c command c' ∧ ¬Rooted c' := by
    intro id binding move hbinding hrebound hclosed hended hlast hdelegates
    have hstep := Step.rebind hbinding hrebound
    refine ⟨_, hstep, not_rooted (wellFormed_step h hstep) hdelegates (fun lease hlease => ?_)
      (openBindings_modify h hlast fun binding _ => hclosed binding)⟩
    have hbefore : c.leases[binding.lease]? = some lease := hlease
    simpa [hbefore] using hended
  cases command with
  | recordBindingReleased id session fence =>
    cases hack : c.acknowledged id session fence with
    | error e => simp [orphans, hack] at horphans
    | ok binding =>
      simp only [orphans, hack, Bool.and_eq_true] at horphans
      exact hclosing (acknowledged_ok.mp hack).1 (.released hack) (fun _ => rfl) horphans.1.1
        horphans.1.2 horphans.2
  | recordBindingFenced id session fence =>
    cases hack : c.acknowledged id session fence with
    | error e => simp [orphans, hack] at horphans
    | ok binding =>
      simp only [orphans, hack, Bool.and_eq_true] at horphans
      exact hclosing (acknowledged_ok.mp hack).1 (.fenced hack) (fun _ => rfl) horphans.1.1
        horphans.1.2 horphans.2
  | recordBindingFailed id session reason fence =>
    cases hack : c.acknowledged id session fence with
    | error e => simp [orphans, hack] at horphans
    | ok binding =>
      simp only [orphans, hack, Bool.and_eq_true] at horphans
      obtain ⟨⟨hclosed, hlast⟩, hdelegates⟩ := horphans
      have hbinding := (acknowledged_ok.mp hack).1
      obtain ⟨holder, hholder, hroot, -⟩ := h.bindings.held hbinding
      have hstep : Step c (.recordBindingFailed id session reason fence) _ := .lose hack hholder
      refine ⟨_, hstep, not_rooted (wellFormed_step h hstep) ?_ ?_ (openBindings_modify h hlast ?_)⟩
      · obtain ⟨child, lease, hchild, hparent, hlive, hclaims⟩ := delegates_iff.mp hdelegates
        have hne : binding.lease ≠ child := by
          rintro rfl
          rw [hholder] at hchild
          cases hchild
          simp [hroot] at hparent
        exact delegates_iff.mpr ⟨child, lease, by simp [OrdMap.get_modify, hne, hchild], hparent, hlive,
          hclaims⟩
      · intro lease hlease
        simp only [OrdMap.get_modify, if_true, hholder, Option.map_some, Option.some.injEq] at hlease
        subst hlease
        unfold endLease
        split
        · rename_i hkeeps
          simp only [endedKeeps_eq, Bool.and_eq_true, Bool.not_eq_true'] at hkeeps
          exact hkeeps.1
        · rfl
      · intro same hsame
        rw [hbinding, Option.some.injEq] at hsame
        subst hsame
        simp [hclosed]
  | _ => simp [orphans] at horphans

end Step

/-! Runs. -/

theorem seated_run {events : List Event}
    (h : Runs.Along take (fun c event => c.orphans event = false) new events) : Seated (run events) := by
  refine run_invariant_along ?_ (fun _ _ _ _ _ h => h) (fun before _ _ hspared hstep hseated =>
    seated_step (wellFormed_run before) hseated hstep hspared) events h
  intro id p lease hlease
  simp [new] at hlease

/-- Where every state of a run is rooted, no event of it orphans. -/
theorem along_of_rooted {events : List Event}
    (h : ∀ reached, reached <+: events → Rooted (run reached)) :
    Runs.Along take (fun c event => c.orphans event = false) new events := by
  refine (Runs.along_iff_forall events).mpr fun before event hbefore => ?_
  rw [← Bool.not_eq_true]
  intro horphans
  have hafter := h _ hbefore
  cases event with
  | apply command =>
    obtain ⟨next, hstep, hbroken⟩ := orphans_step (wellFormed_run before) horphans
    have htaken := taken_run before (.apply command)
    generalize run (before ++ [.apply command]) = reached at htaken hafter
    cases htaken with
    | accepted hstep' =>
      obtain rfl := hstep.unique hstep'
      exact hbroken hafter
    | refused hrefused =>
      rw [accepts_iff.mpr ⟨next, hstep⟩] at hrefused
      cases hrefused
  | _ => simp [orphans] at horphans

/-! Sums. -/

theorem sum_by_key {A K : Type} [DecidableEq K] (key : A → K) (amount : A → ℕ) (keys : Finset K)
    (items : List A) (hkeys : ∀ item ∈ items, key item ∈ keys) :
    ∑ k ∈ keys, ((items.filter fun item => key item = k).map amount).sum = (items.map amount).sum := by
  induction items with
  | nil => simp
  | cons item items ih =>
    have hrest := ih fun other hother => hkeys other (List.mem_cons_of_mem _ hother)
    simp only [sum_filter_eq, List.map_cons, List.sum_cons, Finset.sum_add_distrib,
      decide_eq_true_eq] at hrest ⊢
    rw [hrest, Finset.sum_ite_eq, if_pos (hkeys item List.mem_cons_self)]

/-- The leases whose parent has stopped occupying before them. -/
def orphaned (c : Cluster) : List Lease :=
  (OrdMap.vals c.leases).filter fun lease =>
    c.occupies lease.id && lease.parent.any fun parent => !c.occupies parent

/-- What they claim of a class and dimension. -/
def orphanTotal (c : Cluster) (kind : ResourceClass) (d : CapacityDimension) : ℕ :=
  (c.orphaned.map fun lease => kindTotal c.graph lease.allocation.claims kind d).sum

section Totals
variable {events : List Event} {kind : ResourceClass} {d : CapacityDimension}

theorem heldBy_lt (hcapacity : totalCapacity (run events).graph kind d < 2 ^ 64) (owner : OwnerId) :
    (run events).heldBy owner kind d < 2 ^ 64 := by
  have hle := @ownedTotal_add_le events [] (by simp [DistinctNodes]) (by simp) owner kind d
  exact ((Nat.le_add_right _ _).trans hle).trans_lt hcapacity

theorem usageTotal_eq (hcapacity : totalCapacity (run events).graph kind d < 2 ^ 64) :
    (run events).usageTotal kind d =
      ((chargedRoots (run events).leases (run events).openBindingLeases).map fun lease =>
        kindTotal (run events).graph lease.allocation.claims kind d).sum := by
  have hleases := (wellFormed_run events).leases
  let owners := OrdMap.keySet (ownerUsage (run events).graph (run events).leases
    (run events).openBindingLeases)
  have howners : ∀ lease ∈ chargedRoots (run events).leases (run events).openBindingLeases,
      lease.owner ∈ owners := by
    intro lease hlease
    have hkey := (OrdMap.isSome_foldl_upsert Lease.owner (∅ : ClassUsage) (fun lease entry =>
      chargeLease (run events).graph entry lease) _ ∅ lease.owner).mpr (.inr ⟨lease, hlease, rfl⟩)
    exact OrdMap.mem_keySet.mpr (Option.isSome_iff_exists.mp hkey)
  rw [usageTotal, OrdMap.sum_vals, ← sum_by_key Lease.owner _ owners _ howners]
  refine Finset.sum_congr rfl fun owner howner => ?_
  obtain ⟨usage, husage⟩ := OrdMap.mem_keySet.mp howner
  have hexact := toNat_usageOf hleases (heldBy_lt hcapacity owner)
  rw [usageOf, husage, Option.getD_some] at hexact
  rw [husage, Option.map_some, Option.getD_some, hexact]
  rfl

/-- The leases whose claims occupancy adds up. -/
def countedRoots (c : Cluster) : List Lease :=
  (OrdMap.vals c.leases).filter fun lease =>
    c.occupies lease.id && lease.parent.all fun parent => !c.occupies parent

theorem rootClaims_nil (c : Cluster) (n : NodeId) (d : CapacityDimension) :
    c.rootClaims [] n d = (c.countedRoots.map fun lease => lease.claimOn n d).sum := by
  simp [rootClaims, countedRoots, counts]

/-- The known nodes of a class. -/
def nodesOfKind (graph : Graph) (kind : ResourceClass) : Finset NodeId :=
  (OrdMap.keySet graph.nodes).filter fun node => graph.nodes[node]?.any fun item => item.kind = kind

theorem mem_nodesOfKind {graph : Graph} {n : NodeId} : n ∈ nodesOfKind graph kind ↔
    ∃ node, graph.nodes[n]? = some node ∧ node.kind = kind := by
  simp only [nodesOfKind, Finset.mem_filter, OrdMap.mem_keySet, Option.any_eq_true, decide_eq_true_eq,
    and_iff_right_iff_imp, forall_exists_index, and_imp]
  exact fun node hnode _ => ⟨node, hnode⟩

theorem occupiedTotal_eq (events : List Event) (kind : ResourceClass) (d : CapacityDimension) :
    (run events).occupiedTotal kind d = ((run events).countedRoots.map fun lease =>
      kindTotal (run events).graph lease.allocation.claims kind d).sum := by
  let named := (run events).countedRoots.flatMap fun lease => lease.allocation.claims
  let nodes := nodesOfKind (run events).graph kind ∪ kindNodes (run events).graph named kind
  have hoccupied : (run events).occupiedTotal kind d =
      ∑ n ∈ nodesOfKind (run events).graph kind, (run events).rootClaims [] n d := by
    rw [occupiedTotal, OrdMap.sum_filter_vals]
    refine Finset.sum_congr rfl fun n hn => ?_
    obtain ⟨node, hnode⟩ := OrdMap.mem_keySet.mp (Finset.mem_filter.mp hn).1
    rw [hnode, Option.map_some, Option.getD_some, (filed_run events).key n node hnode]
    exact (roots_within_capacity events n d).2.1
  have hknown : ∀ n, chargedKind (run events).graph n = kind →
      n ∉ nodesOfKind (run events).graph kind → (run events).rootClaims [] n d = 0 := by
    intro n hkind hout
    cases hnode : (run events).graph.nodes[n]? with
    | none =>
      have hwithin := (roots_within_capacity events n d).1
      rw [capacityOf, Graph.node, hnode] at hwithin
      exact Nat.le_zero.mp hwithin
    | some node =>
      rw [chargedKind, Graph.node, hnode] at hkind
      exact absurd (mem_nodesOfKind.mpr ⟨node, hnode, hkind⟩) hout
  have hclaims : ∀ lease ∈ (run events).countedRoots, ∀ claim ∈ lease.allocation.claims,
      claim.node ∈ nodes ↔ chargedKind (run events).graph claim.node = kind := by
    intro lease hlease claim hclaim
    have hnamed := @mem_kindNodes (run events).graph kind lease.allocation.claims named
      (fun claim hclaim => List.mem_flatMap.mpr ⟨lease, hlease, hclaim⟩) claim hclaim
    rw [Finset.mem_union, hnamed, or_iff_right_iff_imp]
    intro hmem
    obtain ⟨node, hnode, hkind⟩ := mem_nodesOfKind.mp hmem
    rw [chargedKind, Graph.node, hnode]
    exact hkind
  calc (run events).occupiedTotal kind d
      = ∑ n ∈ nodesOfKind (run events).graph kind, (run events).rootClaims [] n d := hoccupied
    _ = ∑ n ∈ nodes, (run events).rootClaims [] n d := by
        refine Finset.sum_subset Finset.subset_union_left fun n hn hout => hknown n ?_ hout
        exact (Finset.mem_filter.mp ((Finset.mem_union.mp hn).resolve_left hout)).2
    _ = ((run events).countedRoots.map fun lease => ∑ n ∈ nodes, lease.claimOn n d).sum := by
        rw [sum_sum_map]
        exact Finset.sum_congr rfl fun n _ => rootClaims_nil _ n d
    _ = _ := congrArg List.sum (List.map_congr_left fun lease hlease =>
        (kindTotal_eq (hclaims lease hlease)).symm)

theorem occupiedTotal_eq_add (hcapacity : totalCapacity (run events).graph kind d < 2 ^ 64) :
    (run events).occupiedTotal kind d =
      (run events).usageTotal kind d + (run events).orphanTotal kind d := by
  rw [occupiedTotal_eq, usageTotal_eq hcapacity, orphanTotal, countedRoots, chargedRoots, orphaned,
    sum_filter_eq, sum_filter_eq, sum_filter_eq, ← List.sum_map_add]
  refine congrArg List.sum (List.map_congr_left fun lease hlease => ?_)
  obtain ⟨id, hid⟩ := OrdMap.mem_vals.mp hlease
  have hkey := (wellFormed_run events).leases.key hid
  rw [occupying_eq (hkey.symm ▸ hid)]
  cases lease.parent with
  | none => simp
  | some p => cases (run events).occupies p <;> simp

/-! What orphans claim. -/

theorem resolveClaims_positive {graph : Graph} {seen : List NodeId} {claims resolved : List Claim}
    (h : resolveClaims graph seen claims = .ok resolved) :
    ∀ claim ∈ resolved, ∃ d, quantityGet claim.quantity d ≠ 0 := by
  induction claims generalizing seen resolved with
  | nil =>
    cases h
    simp
  | cons claim rest ih =>
    simp only [resolveClaims, check_bind_ok, refuseIf_ok, check_pure_ok] at h
    obtain ⟨_, -, head, hhead, tail, htail, rfl⟩ := h
    simp only [resolveClaim, check_bind_ok, okOr_ok, check_pure_ok] at hhead
    obtain ⟨node, -, required, hrequired, rfl⟩ := hhead
    intro found hfound
    rcases List.mem_cons.mp hfound with rfl | hfound
    · exact Graph.claimBindingForQuantity_positive hrequired
    · exact ih htail found hfound

theorem positive_run (events : List Event) : ∀ (id : LeaseId) (lease : Lease),
    (run events).leases[id]? = some lease → ∀ claim ∈ lease.allocation.claims,
      ∃ d, quantityGet claim.quantity d ≠ 0 := by
  refine @run_invariant (fun c => ∀ (id : LeaseId) (lease : Lease), c.leases[id]? = some lease →
    ∀ claim ∈ lease.allocation.claims, ∃ d, quantityGet claim.quantity d ≠ 0) ?_
    (fun _ _ _ _ _ h => h) (fun before command c' hstep h id after hafter => ?_) events
  · intro id lease hlease
    simp [new] at hlease
  · rcases (leases_evolve (wellFormed_run before).leases hstep).origin hafter with
      ⟨lease, hlease, hmoves⟩ | ⟨-, -, hadmitted⟩
    · rw [hmoves.claims]
      exact h id lease hlease
    · cases hadmitted with
      | reserve hclaims => exact resolveClaims_positive hclaims
      | openLease hclaims => exact resolveClaims_positive hclaims

theorem rooted_iff (h : LeasesWellFormed (run events).leases) :
    Rooted (run events) ↔ ∀ kind d, (run events).orphanTotal kind d = 0 := by
  have horphaned : ∀ lease, lease ∈ (run events).orphaned ↔
      ∃ id p, (run events).leases[id]? = some lease ∧ (run events).occupies id ∧
        lease.parent = some p ∧ ¬(run events).occupies p := by
    intro lease
    simp only [orphaned, List.mem_filter, OrdMap.mem_vals, Bool.and_eq_true, Option.any_eq_true,
      Bool.not_eq_true', Bool.not_eq_true]
    constructor
    · rintro ⟨⟨id, hlease⟩, hoccupies, p, hparent, hstopped⟩
      exact ⟨id, p, hlease, h.key hlease ▸ hoccupies, hparent, hstopped⟩
    · rintro ⟨id, p, hlease, hoccupies, hparent, hstopped⟩
      exact ⟨⟨id, hlease⟩, (h.key hlease).symm ▸ hoccupies, p, hparent, hstopped⟩
  constructor
  · intro hrooted kind d
    refine List.sum_eq_zero fun amount hamount => ?_
    obtain ⟨lease, hmem, rfl⟩ := List.mem_map.mp hamount
    obtain ⟨id, p, hlease, hoccupies, hparent, hstopped⟩ := (horphaned lease).mp hmem
    have hclaims : lease.allocation.claims = [] := by
      by_contra hclaims
      exact hstopped (hrooted id p lease hlease hoccupies hparent hclaims)
    rw [hclaims]
    rfl
  · intro hzero id p lease hlease hoccupies hparent hclaims
    by_contra hstopped
    obtain ⟨claim, hclaim⟩ := List.exists_mem_of_ne_nil _ hclaims
    obtain ⟨d, hd⟩ := positive_run events id lease hlease claim hclaim
    have hmem := (horphaned lease).mpr ⟨id, p, hlease, hoccupies, hparent, hstopped⟩
    have htotal := hzero (chargedKind (run events).graph claim.node) d
    rw [orphanTotal, List.sum_eq_zero_iff] at htotal
    have hnone := htotal _ (List.mem_map_of_mem hmem)
    rw [kindTotal, List.sum_eq_zero_iff] at hnone
    have hamount := hnone _ (List.mem_map_of_mem (List.mem_filter.mpr ⟨hclaim, by simp⟩))
    exact hd (UInt64.toNat_inj.mp hamount)

theorem usageMatches_iff
    (hcapacity : ∀ kind d, totalCapacity (run events).graph kind d < 2 ^ 64) :
    UsageMatches (run events) ↔ Rooted (run events) := by
  rw [rooted_iff (wellFormed_run events).leases]
  refine forall_congr' fun kind => forall_congr' fun d => ?_
  rw [occupiedTotal_eq_add (hcapacity kind d)]
  omega

end Totals

/-- While no event orphans a child and the capacity of every class fits in a word, the owners are
charged all that is occupied. In a run that only meets such capacities, an event that orphans a
child is exactly what breaks this. -/
theorem usage_matches_occupancy (events : List Event) :
    (Runs.Along take (fun c event => c.orphans event = false) new events →
      (∀ kind d, totalCapacity (run events).graph kind d < 2 ^ 64) → UsageMatches (run events)) ∧
    ((∀ reached, reached <+: events → ∀ kind d, totalCapacity (run reached).graph kind d < 2 ^ 64) →
      (∀ reached, reached <+: events → UsageMatches (run reached)) →
      Runs.Along take (fun c event => c.orphans event = false) new events) := by
  constructor
  · intro halong hcapacity
    exact (usageMatches_iff hcapacity).mpr ((seated_run halong).rooted (wellFormed_run events))
  · intro hcapacity hmatches
    exact along_of_rooted fun reached hreached =>
      (usageMatches_iff (hcapacity reached hreached)).mp (hmatches reached hreached)

/-- The provider fails the parent and its binding is fenced; the child goes on. -/
def Sample.orphanedFamily : List Event :=
  Sample.family ++ [.apply (.recordBindingFailed 1 1 "device lost" 1), .apply (.recordBindingFenced 1 1 1)]

theorem family_capacity {events : List Event}
    (hnodes : OrdMap.vals (run events).graph.nodes = OrdMap.vals (run Sample.family).graph.nodes)
    (kind : ResourceClass) (d : CapacityDimension) :
    totalCapacity (run events).graph kind d < 2 ^ 64 := by
  have hfamily : OrdMap.vals (run Sample.family).graph.nodes =
      [⟨1, .machine, ∅, ∅⟩, ⟨2, .gpu, ∅, qty .count 2⟩] := by
    decide +kernel
  refine (totalCapacity_le _ kind d).trans_lt ?_
  simp only [hnodes, hfamily, List.map_cons, List.map_nil, quantityGet_empty, quantityGet_qty]
  split <;> decide

/-- While the parent holds its gpu, all that is occupied is charged. -/
theorem family_usage_matches : UsageMatches (run Sample.family) :=
  (usage_matches_occupancy Sample.family).1 (by decide +kernel) (family_capacity rfl)

/-- The unit of the child is occupied and charged to nobody. -/
theorem orphan_charged_to_nobody :
    ¬∀ events : List Event, (∀ kind d, totalCapacity (run events).graph kind d < 2 ^ 64) →
      UsageMatches (run events) := by
  intro h
  have husage : (run Sample.orphanedFamily).usageTotal .gpu .count = 0 := by decide +kernel
  have hoccupied : (run Sample.orphanedFamily).occupiedTotal .gpu .count = 1 := by decide +kernel
  have hmatches := h Sample.orphanedFamily (family_capacity (by decide +kernel)) .gpu .count
  rw [husage, hoccupied] at hmatches
  cases hmatches

end Archon.Kernel.Cluster
