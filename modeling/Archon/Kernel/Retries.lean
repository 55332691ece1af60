import Archon.Kernel.Facts
import Archon.Kernel.Replay
import Archon.Kernel.Teardown

/-! Retransmissions. Applying an accepted command once more changes nothing, for
every command but the updates of the graph, with one exception: a lease admitted
for whole nodes stores the capacity it was given, and its retry is compared with
the empty quantity it asked for. -/
namespace Archon.Kernel
open Fallible

/-! Adopting the same writers again. -/

namespace Graph

/-- The writers an adoption ended with, under the facts named so far. -/
def Adoption.settled (final adoption : Adoption) : Adoption :=
  { final with seenNodes := adoption.seenNodes, seenEdges := adoption.seenEdges }

theorem adoptNode_again {graph : Graph} {writer : FactWriterId} {before after final : Adoption}
    {node : NodeId} (h : graph.adoptNode writer before node = .ok after)
    (hfinal : after.Extends final) :
    graph.adoptNode writer (final.settled before) node = .ok (final.settled after) := by
  obtain ⟨hnew, hknown, -, rfl⟩ := adoptNode_ok.mp h
  have howner : final.nodeWriters[node]? = some writer :=
    hfinal.node node writer (by rw [OrdMap.get_insert, if_pos rfl])
  refine adoptNode_ok.mpr ⟨hnew, hknown, fun owner hw => ?_, ?_⟩
  · exact Option.some.inj (hw.symm.trans howner)
  · simp only [Adoption.settled, OrdMap.insert_eq_self howner]

theorem adoptEdge_again {graph : Graph} {writer : FactWriterId} {before after final : Adoption}
    {edge : FactEdge} (h : graph.adoptEdge writer before edge = .ok after)
    (hfinal : after.Extends final) :
    graph.adoptEdge writer (final.settled before) edge = .ok (final.settled after) := by
  obtain ⟨hnew, hknown, -, rfl⟩ := adoptEdge_ok.mp h
  have howner : final.edgeWriters[edge]? = some writer :=
    hfinal.edge edge writer (by rw [OrdMap.get_insert, if_pos rfl])
  refine adoptEdge_ok.mpr ⟨hnew, hknown, fun owner hw => ?_, ?_⟩
  · exact Option.some.inj (hw.symm.trans howner)
  · simp only [Adoption.settled, OrdMap.insert_eq_self howner]

/-- A loop of adoptions can be run again over what it ended with. -/
theorem adoptions_again {A : Type} {adopt : Adoption → A → Except Error Adoption}
    {items : List A} {before after final : Adoption} (h : items.foldlM adopt before = .ok after)
    (hfinal : after.Extends final)
    (hextends : ∀ before item after, adopt before item = .ok after → before.Extends after)
    (hagain : ∀ before item after final, adopt before item = .ok after → after.Extends final →
      adopt (final.settled before) item = .ok (final.settled after)) :
    items.foldlM adopt (final.settled before) = .ok (final.settled after) := by
  induction items generalizing before with
  | nil =>
    cases h
    rfl
  | cons item rest ih =>
    rw [List.foldlM_cons, check_bind_ok] at h ⊢
    obtain ⟨next, hnext, hrest⟩ := h
    have hlater : next.Extends after := @foldlM_invariant _ _ _ _ next.Extends
      (fun _ _ _ hitem hbefore => hbefore.trans (hextends _ _ _ hitem)) _ _ _ hrest (.refl next)
    exact ⟨_, hagain _ _ _ _ hnext (hlater.trans hfinal), ih hrest⟩

theorem adoptAssignment_again {graph : Graph} {before after final : Adoption}
    {assignment : FactWriterAssignment} (h : graph.adoptAssignment before assignment = .ok after)
    (hfinal : after.Extends final) :
    graph.adoptAssignment (final.settled before) assignment = .ok (final.settled after) := by
  simp only [adoptAssignment, check_bind_ok] at h ⊢
  obtain ⟨middle, hnodes, hedges⟩ := h
  have hlater : middle.Extends after := @foldlM_invariant _ _ _ _ middle.Extends
    (fun _ _ _ hedge hbefore => hbefore.trans (adoptEdge_extends hedge)) _ _ _ hedges (.refl middle)
  refine ⟨final.settled middle, ?_, ?_⟩
  · exact adoptions_again hnodes (hlater.trans hfinal) (fun _ _ _ => adoptNode_extends)
      fun _ _ _ _ => adoptNode_again
  · exact adoptions_again hedges hfinal (fun _ _ _ => adoptEdge_extends)
      fun _ _ _ _ => adoptEdge_again

theorem adoptAssignment_writers (graph : Graph) (nodeFactWriters : OrdMap NodeId FactWriterId)
    (edgeFactWriters : OrdMap FactEdge FactWriterId) :
    { graph with nodeFactWriters, edgeFactWriters }.adoptAssignment = graph.adoptAssignment := rfl

theorem adoptFactWriters_again {graph staged : Graph} {assignments : List FactWriterAssignment}
    (h : graph.adoptFactWriters assignments = .ok staged) :
    staged.adoptFactWriters assignments = .ok staged := by
  simp only [adoptFactWriters, check_bind_ok, check_pure_ok] at h
  obtain ⟨adoption, hadoption, rfl⟩ := h
  have hagain : assignments.foldlM graph.adoptAssignment
      ⟨adoption.nodeWriters, adoption.edgeWriters, [], []⟩ = .ok adoption :=
    adoptions_again hadoption (.refl adoption) (fun _ _ _ => adoptAssignment_extends)
      fun _ _ _ _ => adoptAssignment_again
  simp only [adoptFactWriters, check_bind_ok, check_pure_ok, adoptAssignment_writers]
  exact ⟨adoption, hagain, rfl⟩

theorem setObservation_again {graph observed : Graph} {node : NodeId} {key value : String}
    (h : graph.setObservation node key value = some observed) :
    observed.setObservation node key value = some observed := by
  unfold setObservation at h ⊢
  split at h
  · rename_i hknown
    cases h
    rw [if_pos hknown]
    have hsame : OrdMap.upsert (OrdMap.upsert graph.observations node ∅ (·.insert key value)) node ∅
        (·.insert key value) = OrdMap.upsert graph.observations node ∅ (·.insert key value) :=
      OrdMap.upsert_eq_self (by rw [OrdMap.get_upsert, if_pos rfl])
        (OrdMap.insert_eq_self (by rw [OrdMap.get_insert, if_pos rfl]))
    simp only [hsame]
  · cases h

end Graph

namespace Cluster

/-- Whether a command updates the resource graph. -/
def updatesGraph : Command → Bool
  | .applyGraph .. | .applyResourceFacts .. | .applyProviderFacts .. => true
  | _ => false

/-- Whether a command asks for a new lease with a claim on a whole node, that is
with an empty quantity. -/
def asksForWholeNode (c : Cluster) : Command → Bool
  | .reserveLease id _ allocation _ _ =>
    c.leases[id]? = none && allocation.claims.any fun claim => claim.quantity.isEmpty
  | .openLease id _ allocation _ _ _ _ =>
    c.leases[id]? = none && allocation.claims.any fun claim => claim.quantity.isEmpty
  | _ => false

section Step
variable {c c' : Cluster} {command : Command}

/-! The delegation tree under changes that keep every parent. -/

theorem mem_descendants_of_parents (h : LeasesWellFormed c.leases) (h' : LeasesWellFormed c'.leases)
    (hparents : ∀ id : LeaseId, c'.leases[id]?.map Lease.parent = c.leases[id]?.map Lease.parent)
    {id descendant : LeaseId} :
    descendant ∈ c'.descendantsPostorder id ↔ descendant ∈ c.descendantsPostorder id := by
  have hkids : (fun parent child => child ∈ c'.sortedChildren parent) =
      fun parent child => child ∈ c.sortedChildren parent := by
    funext parent child
    have hchild : ∀ {d : Cluster}, LeasesWellFormed d.leases → (child ∈ d.sortedChildren parent ↔
        d.leases[child]?.map Lease.parent = some (some parent)) := by
      intro d hd
      rw [mem_sortedChildren hd, Option.map_eq_some_iff]
    rw [hchild h', hchild h, hparents]
  rw [mem_descendantsPostorder h', mem_descendantsPostorder h, Forest.Below, Forest.Below, hkids]

theorem endTree_again (h : LeasesWellFormed c.leases) {id : LeaseId} {keeps : LeaseState → Bool}
    {final : LeaseState} {last : Lease → Lease} (hlast : ∀ lease, last (last lease) = last lease)
    (hfinal : final.isLive = false) (hmoves : ∀ lease : Lease, lease.Moves (last lease))
    (hleases : c'.leases = c.endTree id keeps final last) (h' : LeasesWellFormed c'.leases) :
    c'.endTree id keeps final last = c'.leases := by
  have hget : ∀ a : LeaseId, c'.leases[a]? = if a = id then c.leases[a]?.map last
      else if a ∈ c.descendantsPostorder id then c.leases[a]?.map (endLease keeps final)
      else c.leases[a]? := by
    intro a
    rw [hleases, get_endTree h]
  have hparents : ∀ a : LeaseId,
      c'.leases[a]?.map Lease.parent = c.leases[a]?.map Lease.parent := by
    intro a
    rw [hget]
    cases c.leases[a]? with
    | none => simp
    | some lease =>
      have hended := (@endLease_moves keeps final hfinal lease).parent
      have htop := (hmoves lease).parent
      split
      · simpa using htop
      · split <;> simp [hended]
  apply Std.ExtTreeMap.ext_getElem?
  intro a
  rw [get_endTree h', hget]
  simp only [mem_descendants_of_parents h h' hparents]
  split
  · cases c.leases[a]? <;> simp [hlast]
  · split
    · cases c.leases[a]? <;> simp [endLease_endLease]
    · rfl

theorem liveDescendants_step (h : WellFormed c) (hstep : Step c command c')
    (hparents : ∀ id : LeaseId, c'.leases[id]?.map Lease.parent = c.leases[id]?.map Lease.parent)
    {id : LeaseId} (hdead : c.liveDescendants id = []) : c'.liveDescendants id = [] := by
  have h' := (wellFormed_step h hstep).leases
  simp only [liveDescendants, List.filter_eq_nil_iff] at hdead ⊢
  intro descendant hbelow hlive
  rw [mem_descendants_of_parents h.leases h' hparents] at hbelow
  obtain ⟨lease', hlease', hoccupies⟩ := Option.any_eq_true _ _ |>.mp hlive
  rw [h'.key hlease'] at hoccupies
  have hknown := hparents descendant
  rw [hlease', Option.map_some] at hknown
  obtain ⟨lease, hlease, -⟩ := Option.map_eq_some_iff.mp hknown.symm
  refine hdead descendant hbelow ?_
  rw [hlease, Option.any_some, h.leases.key hlease]
  exact occupies_step h hstep hlease hoccupies

/-! Claims as asked for and as stored. -/

theorem resolveClaims_eq_iff {graph : Graph} {seen : List NodeId} {claims resolved : List Claim}
    (h : resolveClaims graph seen claims = .ok resolved) :
    resolved = claims ↔ claims.any (fun claim => claim.quantity.isEmpty) = false := by
  constructor
  · rintro rfl
    simpa [List.any_eq_false] using (resolveClaims_ok h).2.2.2
  · intro hnamed
    induction claims generalizing seen resolved with
    | nil =>
      cases h
      rfl
    | cons claim rest ih =>
      simp only [List.any_cons, Bool.or_eq_false_iff] at hnamed
      simp only [resolveClaims, check_bind_ok, refuseIf_ok, check_pure_ok] at h
      obtain ⟨_, -, head, hhead, tail, htail, rfl⟩ := h
      rw [(resolveClaim_ok hhead).2.2.2 hnamed.1, ih htail hnamed.2]

/-! One more time. -/

theorem still_rebind {id : BindingId} {binding : Binding} {move : Binding → Binding}
    (hbinding : c.bindings[id]? = some binding) (h : Rebound c id binding command move)
    (hstill : move binding = binding) : Step c command c := by
  have hsame : c.bindings.modify id move = c.bindings := by
    refine OrdMap.modify_eq_self fun found hfound => ?_
    rw [hbinding] at hfound
    cases hfound
    exact hstill
  have hstep := Step.rebind hbinding h
  rw [hsame] at hstep
  exact hstep

theorem acknowledged_moved {id : BindingId} {binding moved : Binding} {session fence : UInt64}
    (hack : c.acknowledged id session fence = .ok binding) (hmoves : binding.Moves moved)
    (hgraph : c'.graph = c.graph) (hsessions : c'.sessions = c.sessions)
    (hmoved : c'.bindings[id]? = some moved) : c'.acknowledged id session fence = .ok moved := by
  obtain ⟨-, ⟨machine, hsession⟩, hfence⟩ := acknowledged_ok.mp hack
  refine acknowledged_ok.mpr ⟨hmoved, ⟨machine, ?_⟩, hmoves.fence.trans hfence⟩
  rw [requireSession_ok, hmoves.node, hgraph, hsessions]
  exact requireSession_ok.mp hsession

theorem Rebound.again {id : BindingId} {binding : Binding} {move : Binding → Binding}
    (hbinding : c.bindings[id]? = some binding) (h : Rebound c id binding command move)
    (hgraph : c'.graph = c.graph) (hsessions : c'.sessions = c.sessions)
    (hleases : c'.leases = c.leases) (hbindings : c'.bindings = c.bindings.modify id move) :
    Step c' command c' := by
  have hmoved : c'.bindings[id]? = some (move binding) := by
    rw [hbindings, OrdMap.get_modify, if_pos rfl, hbinding, Option.map_some]
  have hmoves := h.moves
  cases h with
  | activate hlease hactive _ =>
    exact .retry (.activateBinding hmoved (by rw [hleases]; exact hlease) hactive rfl)
  | fail => exact still_rebind hmoved (.fail rfl) rfl
  | prepared hack hstate =>
    exact still_rebind hmoved (.prepared (acknowledged_moved hack hmoves hgraph hsessions hmoved)
      hstate) rfl
  | active hack hstate =>
    exact still_rebind hmoved (.active (acknowledged_moved hack hmoves hgraph hsessions hmoved)
      hstate) rfl
  | released hack =>
    exact still_rebind hmoved (.released (acknowledged_moved hack hmoves hgraph hsessions hmoved)) rfl
  | fenced hack =>
    exact still_rebind hmoved (.fenced (acknowledged_moved hack hmoves hgraph hsessions hmoved)) rfl
  | @rebind session machine hsession =>
    have hstill : c'.requireSession binding.node session = .ok machine := by
      rw [requireSession_ok, hgraph, hsessions]
      exact requireSession_ok.mp hsession
    exact still_rebind hmoved (.rebind hstill) rfl

theorem Admitted.again {lease : Lease} (h : Admitted c command lease) (hfresh : c.leases[lease.id]? = none)
    (hagreed : c'.agreed) (hlease : c'.leases[lease.id]? = some lease)
    (hwhole : c.asksForWholeNode command = false) : Retry c' command := by
  cases h with
  | reserve hclaims =>
    simp only [asksForWholeNode, hfresh, decide_true, Bool.true_and] at hwhole
    exact .reserve hagreed hlease rfl rfl ((resolveClaims_eq_iff hclaims).mpr hwhole) rfl
  | openLease hclaims =>
    simp only [asksForWholeNode, hfresh, decide_true, Bool.true_and] at hwhole
    exact .openLease hagreed hlease rfl rfl ((resolveClaims_eq_iff hclaims).mpr hwhole)

theorem Advanced.again {id : LeaseId} {lease : Lease} {move : Lease → Lease}
    (h : Advanced c id lease command move) (hagreed : c'.agreed)
    (hmoved : c'.leases[id]? = some (move lease)) : Retry c' command := by
  cases h with
  | promote => exact .promote hagreed hmoved rfl
  | activate => exact .activate hagreed hmoved rfl
  | renew hstate => exact .renew hagreed hmoved hstate rfl

theorem Ended.again (h : WellFormed c) {id : LeaseId} {lease : Lease} {keeps : LeaseState → Bool}
    {final : LeaseState} {last : Lease → Lease} (hlease : c.leases[id]? = some lease)
    (hended : Ended c id lease command keeps final last)
    (hleases : c'.leases = c.endTree id keeps final last) (h' : LeasesWellFormed c'.leases) :
    Step c' command c' := by
  obtain ⟨hfinal, hmoves⟩ := hended.terminal
  have hmoved : c'.leases[id]? = some (last lease) := by
    rw [hleases, get_endTree h.leases, if_pos rfl, hlease, Option.map_some]
  have hagain : ∀ {final : LeaseState}, final.isLive = false →
      c'.leases = c.endTree id endedKeeps final (endLease endedKeeps final) →
      Step c' command { c' with leases := c'.endTree id endedKeeps final (endLease endedKeeps final) } →
      Step c' command c' := by
    intro final hfinal hleases hstep
    rw [endTree_again h.leases (endLease_endLease endedKeeps final) hfinal
      (endLease_moves hfinal) hleases h'] at hstep
    exact hstep
  cases hended with
  | fail => exact hagain rfl hleases (.finish hmoved .fail)
  | revoke => exact hagain rfl hleases (.finish hmoved .revoke)
  | expire => exact .retry (.expire hmoved rfl)
  | @complete code =>
    refine .retry (.complete hmoved ?_)
    simp only [finalState]
    split <;> simp

theorem still_lose {id : BindingId} {binding : Binding} {lease : Lease} {session fence : UInt64}
    {reason : String} (hack : c.acknowledged id session fence = .ok binding)
    (hlease : c.leases[binding.lease]? = some lease) (hsession : binding.agentSession = session)
    (hlost : (if binding.state.isClosed then binding.state else .failed) = binding.state)
    (hended : endLease endedKeeps .failed lease = lease) :
    Step c (.recordBindingFailed id session reason fence) c := by
  have hbindings : c.bindings.modify id (fun binding => { binding with
      agentSession := session
      state := if binding.state.isClosed then binding.state else .failed }) = c.bindings := by
    refine OrdMap.modify_eq_self fun found hfound => ?_
    rw [(acknowledged_ok.mp hack).1] at hfound
    cases hfound
    rw [hlost, ← hsession]
  have hleases : c.leases.modify binding.lease (endLease endedKeeps .failed) = c.leases := by
    refine OrdMap.modify_eq_self fun found hfound => ?_
    rw [hlease] at hfound
    cases hfound
    exact hended
  have hstep := @Step.lose c session fence reason id binding lease hack hlease
  rw [hbindings, hleases] at hstep
  exact hstep

theorem still_hello {machine : NodeId} {session : UInt64} {found : Node}
    (hnode : c.graph.node machine = some found) (hkind : found.kind = .machine)
    (hsession : c.sessions[machine]? = some session) :
    Step c (.setAgentSession machine session) c := by
  have hnewer : ∀ current, c.sessions[machine]? = some current → current ≤ session := by
    intro current hcurrent
    rw [hsession] at hcurrent
    cases hcurrent
    exact UInt64.le_refl _
  have hstep := Step.hello hnode hkind hnewer
  rw [OrdMap.insert_eq_self hsession] at hstep
  exact hstep

theorem still_restate {node : NodeId} {state : NodeState} (hcommand : Restated c command node state)
    (hallowed : StateAllowed c node state state)
    (hentry : c.nodeStates[node]? = if state = .schedulable then none else some state) :
    Step c command c := by
  have hstep := Step.restate hcommand hallowed
  split at hentry
  · rename_i hstate
    rw [if_pos hstate, OrdMap.erase_eq_self hentry] at hstep
    exact hstep
  · rename_i hstate
    rw [if_neg hstate, OrdMap.insert_eq_self hentry] at hstep
    exact hstep

theorem still_raise {node : NodeId} {provider : ProviderId} {fence watermark : UInt64}
    (hnode : c.graph.node node ≠ none) (hpositive : fence ≠ 0)
    (hentry : c.lastFence[(⟨provider, node⟩ : EndpointKey)]? = some watermark)
    (hraised : fence ≤ watermark) : Step c (.advanceEndpointFence node provider fence) c := by
  have hsame : OrdMap.upsert c.lastFence (⟨provider, node⟩ : EndpointKey) 0 (fun watermark =>
      if watermark < fence then fence else watermark) = c.lastFence :=
    OrdMap.upsert_eq_self hentry (if_neg (UInt64.not_lt.mpr hraised))
  have hstep := @Step.raise c node fence provider hnode hpositive
  rw [hsame] at hstep
  exact hstep

theorem Restated.again {node : NodeId} {state current : NodeState}
    (hcommand : Restated c command node state) (hallowed : StateAllowed c node state current)
    (hgraph : c'.graph = c.graph)
    (hauthority : c'.nodeHasLiveAuthority node = c.nodeHasLiveAuthority node)
    (hentry : c'.nodeStates[node]? = if state = .schedulable then none else some state) :
    Step c' command c' := by
  obtain ⟨found, hfound, -⟩ := Option.map_eq_some_iff.mp hallowed.known
  have hknown : c'.nodeState node = some state := by
    unfold nodeState
    rw [hentry, hgraph, hfound]
    by_cases hstate : state = .schedulable <;> simp [hstate]
  have hsettled : StateAllowed c' node state state :=
    ⟨hknown, fun h => h, fun hstate hnot => absurd hstate hnot,
      fun hstate => hauthority.trans (hallowed.vacant hstate)⟩
  cases hcommand with
  | direct => exact still_restate .direct hsettled hentry
  | quarantine => exact still_restate .quarantine hsettled hentry
  | unquarantine => exact .retry (.unquarantine (by simp [hknown]) (by simp [hgraph, hfound]))

/-- A command that was accepted is accepted again and changes nothing. -/
theorem Step.again (h : WellFormed c) (hstep : Step c command c')
    (hgraph : updatesGraph command = false) (hwhole : c.asksForWholeNode command = false)
    (log : List Command) : Step { c' with log } command { c' with log } := by
  have hstep' := hstep
  cases hstep with
  | retry hretry => exact .retry (hretry.restamp _ _ _ _ log fun hagreed => hagreed)
  | install _ hstaged => cases hstaged <;> cases hgraph
  | annotate hannotated =>
    cases hannotated with
    | adopt hagreed hadopted =>
      exact .annotate (.adopt hagreed (Graph.adoptFactWriters_again hadopted))
    | observe hobserved => exact .annotate (.observe (Graph.setObservation_again hobserved))
  | enter hagreed hfresh hadmitted =>
    exact .retry (hadmitted.again hfresh hagreed (by rw [OrdMap.get_insert, if_pos rfl]) hwhole)
  | advance hagreed hlease hadvanced =>
    refine .retry (hadvanced.again hagreed ?_)
    rw [OrdMap.get_modify, if_pos rfl, hlease, Option.map_some]
  | @release id lease hdead hlease hstate =>
    have hmoved : (c.leases.modify id fun lease => { lease with state := .released })[id]? =
        some { lease with state := .released } := by
      rw [OrdMap.get_modify, if_pos rfl, hlease, Option.map_some]
    refine .retry (.release (liveDescendants_step h hstep' (fun a => ?_) hdead) hmoved rfl)
    rw [OrdMap.get_modify]
    split
    · cases c.leases[a]? <;> rfl
    · rfl
  | finish hlease hended => exact hended.again h hlease rfl (wellFormed_step h hstep').leases
  | bind =>
    exact .retry (.openBinding (by rw [OrdMap.get_insert, if_pos rfl]) rfl rfl rfl rfl)
  | rebind hbinding hrebound => exact hrebound.again hbinding rfl rfl rfl rfl
  | @lose session fence reason id binding lease hack hlease =>
    have hbinding := (acknowledged_ok.mp hack).1
    have hmoved : (c.bindings.modify id fun binding => { binding with
        agentSession := session
        state := if binding.state.isClosed then binding.state else .failed })[id]? =
        some { binding with
          agentSession := session
          state := if binding.state.isClosed then binding.state else .failed } := by
      rw [OrdMap.get_modify, if_pos rfl, hbinding, Option.map_some]
    have hended : (c.leases.modify binding.lease (endLease endedKeeps .failed))[binding.lease]? =
        some (endLease endedKeeps .failed lease) := by
      rw [OrdMap.get_modify, if_pos rfl, hlease, Option.map_some]
    refine still_lose (acknowledged_moved hack ((bindings_evolve hstep').moved hbinding hmoved) rfl
      rfl hmoved) hended rfl ?_ (endLease_endLease _ _ _)
    by_cases hclosed : binding.state.isClosed <;> simp [hclosed]
  | hello hnode hkind =>
    exact still_hello hnode hkind (by rw [OrdMap.get_insert, if_pos rfl])
  | restate hcommand hallowed =>
    refine hcommand.again hallowed rfl rfl ?_
    simp only
    split <;> simp
  | raise hnode hpositive =>
    refine still_raise hnode hpositive (by rw [OrdMap.get_upsert, if_pos rfl]) ?_
    split
    · exact UInt64.le_refl _
    · exact UInt64.not_lt.mp ‹_›

theorem entered_of_asks (hstep : Step c command c') (hwhole : c.asksForWholeNode command) :
    ∃ lease, Admitted c command lease ∧ c'.leases[lease.id]? = some lease := by
  cases hstep with
  | enter _ _ hadmitted =>
    exact ⟨_, hadmitted, by rw [OrdMap.get_insert, if_pos rfl]⟩
  | retry h =>
    cases h with
    | reserve _ hlease => simp [asksForWholeNode, hlease] at hwhole
    | openLease _ hlease => simp [asksForWholeNode, hlease] at hwhole
    | _ => cases hwhole
  | install _ h => cases h <;> cases hwhole
  | annotate h => cases h <;> cases hwhole
  | advance _ _ h => cases h <;> cases hwhole
  | finish _ h => cases h <;> cases hwhole
  | rebind _ h => cases h <;> cases hwhole
  | restate h => cases h <;> cases hwhole
  | release | bind | lose | hello | raise => cases hwhole

/-- A lease stored with more than it asked for refuses its own retry. -/
theorem Admitted.refused_again {lease : Lease} (h : Admitted c command lease)
    (hwhole : c.asksForWholeNode command) {next : Cluster} (hstep : Step c' command next)
    (hlease : c'.leases[lease.id]? = some lease) : False := by
  cases h with
  | reserve hclaims =>
    simp only [asksForWholeNode, Bool.and_eq_true] at hwhole
    cases hstep with
    | retry hretry =>
      cases hretry with
      | reserve _ hfound _ _ hsame =>
        rw [hlease] at hfound
        cases hfound
        rw [(resolveClaims_eq_iff hclaims).mp hsame] at hwhole
        cases hwhole.2
    | enter _ hfresh h =>
      cases h
      simp [hlease] at hfresh
    | install _ h => cases h
    | annotate h => cases h
    | advance _ _ h => cases h
    | finish _ h => cases h
    | rebind _ h => cases h
    | restate h => cases h
  | openLease hclaims =>
    simp only [asksForWholeNode, Bool.and_eq_true] at hwhole
    cases hstep with
    | retry hretry =>
      cases hretry with
      | openLease _ hfound _ _ hsame =>
        rw [hlease] at hfound
        cases hfound
        rw [(resolveClaims_eq_iff hclaims).mp hsame] at hwhole
        cases hwhole.2
    | enter _ hfresh h =>
      cases h
      simp [hlease] at hfresh
    | install _ h => cases h
    | annotate h => cases h
    | advance _ _ h => cases h
    | finish _ h => cases h
    | rebind _ h => cases h
    | restate h => cases h

end Step

/-! Runs. -/

/-- A command other than an update of the graph, accepted in a reachable cluster,
is accepted again and only the log grows, exactly when it did not ask for a new
lease with a claim on a whole node. -/
theorem retries_idempotent_iff (events : List Event) (command : Command) (effects : List Effect)
    (next : Cluster) (hgraph : updatesGraph command = false)
    (happly : apply command (run events) = .ok effects next) :
    (∃ effects', apply command next = .ok effects' { next with log := next.log ++ [command] }) ↔
      (run events).asksForWholeNode command = false := by
  obtain ⟨c', hstep, rfl⟩ := apply_ok_iff.mp ⟨effects, happly⟩
  rw [apply_ok_iff]
  constructor
  · rintro ⟨again, hagain, -⟩
    cases hwhole : (run events).asksForWholeNode command with
    | false => rfl
    | true =>
      obtain ⟨lease, hadmitted, hlease⟩ := entered_of_asks hstep hwhole
      exact (hadmitted.refused_again hwhole hagain hlease).elim
  · intro hwhole
    exact ⟨_, hstep.again (wellFormed_run events) hgraph hwhole _, rfl⟩

/-- A claim on the whole gpu, whatever it holds. -/
def Sample.wholeGpu : Command := .reserveLease 1 1 ⟨[⟨2, ∅⟩], 1, ⟨"", []⟩⟩ 100 0

theorem whole_gpu_retry_refused :
    ¬∀ (events : List Event) (command : Command) (effects : List Effect) (next : Cluster),
      updatesGraph command = false → apply command (run events) = .ok effects next →
      ∃ effects', apply command next = .ok effects' { next with log := next.log ++ [command] } := by
  intro h
  have haccepts : (run (Sample.host .exclusive)).accepts Sample.wholeGpu := by decide +kernel
  have hasks : (run (Sample.host .exclusive)).asksForWholeNode Sample.wholeGpu := by decide +kernel
  obtain ⟨c', hstep⟩ := accepts_iff.mp haccepts
  obtain ⟨effects, happly⟩ := apply_ok_iff.mpr ⟨c', hstep, rfl⟩
  obtain ⟨again, hagain, -⟩ := apply_ok_iff.mp (h _ _ _ _ rfl happly)
  obtain ⟨lease, hadmitted, hlease⟩ := entered_of_asks hstep hasks
  exact hadmitted.refused_again hasks hagain hlease

/-- Revoking the running lease once more is accepted and changes nothing. -/
theorem revoke_retry_idempotent : ∃ effects next effects',
    apply (.revokeLease 1) (run (Sample.running .exclusive)) = .ok effects next ∧
    apply (.revokeLease 1) next =
      .ok effects' { next with log := next.log ++ [.revokeLease 1] } := by
  have haccepts : (run (Sample.running .exclusive)).accepts (.revokeLease 1) := by decide +kernel
  obtain ⟨c', hstep⟩ := accepts_iff.mp haccepts
  obtain ⟨effects, happly⟩ := apply_ok_iff.mpr ⟨c', hstep, rfl⟩
  obtain ⟨effects', hagain⟩ := (retries_idempotent_iff _ _ _ _ rfl happly).mpr rfl
  exact ⟨effects, _, effects', happly, hagain⟩

end Cluster
end Archon.Kernel
