import Archon.Kernel.Facts

/-! Ownership of facts. A writer keeps what it has written or adopted, an owned
fact changes only in a batch of its writer, a fact without writer is out of
reach for batches, and no fact is ever removed. -/
namespace Archon.Kernel.Cluster
open Fallible Archon.Kernel.Graph

/-- The batches a command brings. -/
def batches : Command → List ProviderFactBatch
  | .applyProviderFacts batches _ => batches
  | _ => []

section Step
variable {c c' : Cluster} {command : Command}

theorem tended_of_unnamed {before after : Graph}
    (h : Owned.Tended none (fun _ _ => False) before.nodeFacts after.nodeFacts ∧
      Owned.Tended [] (fun _ _ => False) before.edgeFacts after.edgeFacts) :
    Owned.Tended none (NamesNode (batches command)) before.nodeFacts after.nodeFacts ∧
      Owned.Tended [] (NamesEdge (batches command)) before.edgeFacts after.edgeFacts :=
  ⟨h.1.mono fun _ _ => False.elim, h.2.mono fun _ _ => False.elim⟩

theorem Staged.tended {graph staged : Graph} (h : Staged graph command staged) :
    Owned.Tended none (NamesNode (batches command)) graph.nodeFacts staged.nodeFacts ∧
      Owned.Tended [] (NamesEdge (batches command)) graph.edgeFacts staged.edgeFacts := by
  cases h with
  | legacy happly => exact tended_of_unnamed (apply_tended happly)
  | resource hfacts => exact tended_of_unnamed (applyResourceFacts_tended hfacts)
  | provider hfacts =>
    obtain ⟨⟨hnodes, -⟩, hedges, -⟩ := applyProviderFacts_tended hfacts
    exact ⟨hnodes, hedges⟩

theorem Annotated.tended {staged : Graph} (h : Annotated c command staged) :
    Owned.Tended none (NamesNode (batches command)) c.graph.nodeFacts staged.nodeFacts ∧
      Owned.Tended [] (NamesEdge (batches command)) c.graph.edgeFacts staged.edgeFacts := by
  cases h with
  | adopt _ hadopted => exact tended_of_unnamed (adoptFactWriters_tended hadopted)
  | observe hobserved =>
    unfold Graph.setObservation at hobserved
    split at hobserved
    · cases hobserved
      exact ⟨.refl, .refl⟩
    · cases hobserved

theorem facts_step (hstep : Step c command c') :
    Owned.Tended none (NamesNode (batches command)) c.graph.nodeFacts c'.graph.nodeFacts ∧
      Owned.Tended [] (NamesEdge (batches command)) c.graph.edgeFacts c'.graph.edgeFacts := by
  cases hstep with
  | install _ hstaged => exact hstaged.tended
  | annotate hannotated => exact hannotated.tended
  | retry | enter | advance | release | finish | bind | rebind | lose | hello | restate | raise =>
    exact ⟨.refl, .refl⟩

/-- A batch leaves the facts without writer alone. -/
theorem facts_spared {batches : List ProviderFactBatch} {updates : List ClaimBindingUpdate}
    (hstep : Step c (.applyProviderFacts batches updates) c') :
    Owned.Spared none c.graph.nodeFacts c'.graph.nodeFacts ∧
      Owned.Spared [] c.graph.edgeFacts c'.graph.edgeFacts := by
  cases hstep with
  | install _ hstaged =>
    cases hstaged with
    | provider hfacts =>
      obtain ⟨⟨-, hnodes⟩, -, hedges⟩ := applyProviderFacts_tended hfacts
      exact ⟨hnodes, hedges⟩
  | retry h => cases h
  | annotate h => cases h
  | enter _ _ h => cases h
  | advance _ _ h => cases h
  | finish _ h => cases h
  | rebind _ h => cases h
  | restate h => cases h

end Step

/-! Runs. -/

/-- What a later cluster owes to an earlier one: writers and facts stay. -/
structure FactsKept (c c' : Cluster) : Prop where
  nodeWriter : ∀ (id : NodeId) w, c.graph.nodeFactWriters[id]? = some w →
    c'.graph.nodeFactWriters[id]? = some w
  edgeWriter : ∀ (key : FactEdge) w, c.graph.edgeFactWriters[key]? = some w →
    c'.graph.edgeFactWriters[key]? = some w
  node : ∀ id : NodeId, c.graph.nodes[id]? ≠ none → c'.graph.nodes[id]? ≠ none
  edge : ∀ key, c.graph.edgesAt key ≠ [] → c'.graph.edgesAt key ≠ []

theorem factsKept_run (before after : List Event) :
    FactsKept (run before) (run (before ++ after)) := by
  refine run_related (fun _ => ⟨fun _ _ h => h, fun _ _ h => h, fun _ h => h, fun _ h => h⟩)
    (fun _ _ _ _ _ _ h => ⟨h.nodeWriter, h.edgeWriter, h.node, h.edge⟩)
    (fun c events command c' hstep h => ?_) before after
  obtain ⟨hnodes, hedges⟩ := facts_step hstep
  exact ⟨fun id w hw => hnodes.owner id w (h.nodeWriter id w hw),
    fun key w hw => hedges.owner key w (h.edgeWriter key w hw),
    fun id hid => hnodes.kept id (h.node id hid), fun key hkey => hedges.kept key (h.edge key hkey)⟩

theorem facts_event (before : List Event) (event : Event) :
    ∃ brought, (Owned.Tended none (NamesNode brought) (run before).graph.nodeFacts
        (run (before ++ [event])).graph.nodeFacts ∧
      Owned.Tended [] (NamesEdge brought) (run before).graph.edgeFacts
        (run (before ++ [event])).graph.edgeFacts) ∧
      (brought ≠ [] → ∃ updates, event = .apply (.applyProviderFacts brought updates)) := by
  refine @Taken.preserves (fun reached => ∃ brought,
    (Owned.Tended none (NamesNode brought) (run before).graph.nodeFacts reached.graph.nodeFacts ∧
      Owned.Tended [] (NamesEdge brought) (run before).graph.edgeFacts reached.graph.edgeFacts) ∧
      (brought ≠ [] → ∃ updates, event = .apply (.applyProviderFacts brought updates)))
    (fun _ _ _ _ _ h => h) _ _ _ (taken_run before event)
    ⟨[], ⟨.refl, .refl⟩, fun h => absurd rfl h⟩ ?_
  rintro command next rfl hstep
  refine ⟨batches command, facts_step hstep, fun hbrought => ?_⟩
  cases command with
  | applyProviderFacts brought updates => exact ⟨updates, rfl⟩
  | _ => exact absurd rfl hbrought

theorem facts_spared_event (before : List Event) (brought : List ProviderFactBatch)
    (updates : List ClaimBindingUpdate) :
    Owned.Spared none (run before).graph.nodeFacts
        (run (before ++ [.apply (.applyProviderFacts brought updates)])).graph.nodeFacts ∧
      Owned.Spared [] (run before).graph.edgeFacts
        (run (before ++ [.apply (.applyProviderFacts brought updates)])).graph.edgeFacts := by
  refine @Taken.preserves (fun reached =>
    Owned.Spared none (run before).graph.nodeFacts reached.graph.nodeFacts ∧
      Owned.Spared [] (run before).graph.edgeFacts reached.graph.edgeFacts)
    (fun _ _ _ _ _ h => h) _ _ _ (taken_run before _) ⟨.refl, .refl⟩ ?_
  intro command next hevent hstep
  cases hevent
  exact facts_spared hstep

/-- Ownership of facts is permanent: writers stay, an owned fact changes only in
a batch of its writer that names it, batches leave facts without writer alone,
and nothing is removed. -/
theorem fact_ownership_permanent (before : List Event) :
    (∀ (after : List Event) (id : NodeId) (w : FactWriterId),
      (run before).graph.nodeFactWriters[id]? = some w →
      (run (before ++ after)).graph.nodeFactWriters[id]? = some w) ∧
    (∀ (after : List Event) (key : FactEdge) (w : FactWriterId),
      (run before).graph.edgeFactWriters[key]? = some w →
      (run (before ++ after)).graph.edgeFactWriters[key]? = some w) ∧
    (∀ (event : Event) (id : NodeId) (w : FactWriterId),
      (run before).graph.nodeFactWriters[id]? = some w →
      (run (before ++ [event])).graph.nodes[id]? ≠ (run before).graph.nodes[id]? →
      ∃ brought updates, event = .apply (.applyProviderFacts brought updates) ∧
        ∃ batch ∈ brought, batch.writer = w ∧ id ∈ batch.nodes.map Node.id) ∧
    (∀ (event : Event) (key : FactEdge) (w : FactWriterId),
      (run before).graph.edgeFactWriters[key]? = some w →
      (run (before ++ [event])).graph.edgesAt key ≠ (run before).graph.edgesAt key →
      ∃ brought updates, event = .apply (.applyProviderFacts brought updates) ∧
        ∃ batch ∈ brought, batch.writer = w ∧ key ∈ batch.edges.map Edge.key) ∧
    (∀ (brought : List ProviderFactBatch) (updates : List ClaimBindingUpdate) (id : NodeId),
      (run before).graph.nodes[id]? ≠ none → (run before).graph.nodeFactWriters[id]? = none →
      (run (before ++ [.apply (.applyProviderFacts brought updates)])).graph.nodes[id]? =
        (run before).graph.nodes[id]?) ∧
    (∀ (brought : List ProviderFactBatch) (updates : List ClaimBindingUpdate) (key : FactEdge),
      (run before).graph.edgesAt key ≠ [] → (run before).graph.edgeFactWriters[key]? = none →
      (run (before ++ [.apply (.applyProviderFacts brought updates)])).graph.edgesAt key =
        (run before).graph.edgesAt key) ∧
    (∀ (after : List Event) (id : NodeId), (run before).graph.nodes[id]? ≠ none →
      (run (before ++ after)).graph.nodes[id]? ≠ none) ∧
    ∀ (after : List Event) (key : FactEdge), (run before).graph.edgesAt key ≠ [] →
      (run (before ++ after)).graph.edgesAt key ≠ [] := by
  refine ⟨fun after => (factsKept_run before after).nodeWriter,
    fun after => (factsKept_run before after).edgeWriter, ?_, ?_, ?_, ?_,
    fun after => (factsKept_run before after).node, fun after => (factsKept_run before after).edge⟩
  · intro event id w hw hchanged
    obtain ⟨brought, ⟨hnodes, -⟩, hevent⟩ := facts_event before event
    obtain ⟨batch, hbatch, hnamed⟩ := hnodes.owned id w hw hchanged
    obtain ⟨updates, rfl⟩ := hevent (List.ne_nil_of_mem hbatch)
    exact ⟨brought, updates, rfl, batch, hbatch, hnamed⟩
  · intro event key w hw hchanged
    obtain ⟨brought, ⟨-, hedges⟩, hevent⟩ := facts_event before event
    obtain ⟨batch, hbatch, hnamed⟩ := hedges.owned key w hw hchanged
    obtain ⟨updates, rfl⟩ := hevent (List.ne_nil_of_mem hbatch)
    exact ⟨brought, updates, rfl, batch, hbatch, hnamed⟩
  · intro brought updates id hknown hnone
    exact ((facts_spared_event before brought updates).1 id hknown hnone).1
  · intro brought updates key hknown hnone
    exact ((facts_spared_event before brought updates).2 key hknown hnone).1

/-- A rack from before there were writers, and a machine with its gpu that
belongs to writer 7. -/
def Sample.surveyed : List Event := [
  .apply (.applyGraph [⟨8, .rack, ∅, ∅⟩, ⟨9, .nic, ∅, ∅⟩] [⟨8, 9, .connected, ∅⟩]),
  .apply (.applyProviderFacts
    [⟨7, [⟨1, .machine, ∅, ∅⟩, ⟨2, .gpu, ∅, Sample.units 2⟩], [⟨1, 2, .contains, ∅⟩]⟩] [])]

/-- Writer 7 reports a larger gpu and a label on its edge. -/
def Sample.resurvey : Event := .apply (.applyProviderFacts
  [⟨7, [⟨2, .gpu, ∅, Sample.units 4⟩], [⟨1, 2, .contains, (∅ : Attrs).insert "slot" "0"⟩]⟩] [])

theorem surveyed_gpu_owned :
    (run (Sample.surveyed ++ [Sample.resurvey])).graph.nodeFactWriters[(2 : NodeId)]? = some 7 ∧
    (run (Sample.surveyed ++ [Sample.resurvey])).graph.edgeFactWriters[
      (⟨1, 2, .contains⟩ : FactEdge)]? = some 7 ∧
    (∃ brought updates, Sample.resurvey = .apply (.applyProviderFacts brought updates) ∧
      ∃ batch ∈ brought, batch.writer = 7 ∧ 2 ∈ batch.nodes.map Node.id) ∧
    (∃ brought updates, Sample.resurvey = .apply (.applyProviderFacts brought updates) ∧
      ∃ batch ∈ brought, batch.writer = 7 ∧ ⟨1, 2, .contains⟩ ∈ batch.edges.map Edge.key) ∧
    (run (Sample.surveyed ++ [Sample.resurvey])).graph.nodes[(8 : NodeId)]? =
      (run Sample.surveyed).graph.nodes[(8 : NodeId)]? ∧
    (run (Sample.surveyed ++ [Sample.resurvey])).graph.edgesAt ⟨8, 9, .connected⟩ =
      (run Sample.surveyed).graph.edgesAt ⟨8, 9, .connected⟩ ∧
    (run (Sample.surveyed ++ [Sample.resurvey])).graph.nodes[(1 : NodeId)]? ≠ none ∧
    (run (Sample.surveyed ++ [Sample.resurvey])).graph.edgesAt ⟨1, 2, .contains⟩ ≠ [] := by
  obtain ⟨hnode, hedge, hchanged, hrelabelled, hspared, hspared', hkept, hkept'⟩ :=
    fact_ownership_permanent Sample.surveyed
  refine ⟨hnode _ 2 7 (by decide +kernel), hedge _ _ 7 (by decide +kernel),
    hchanged Sample.resurvey 2 7 (by decide +kernel) (by decide +kernel),
    hrelabelled Sample.resurvey _ 7 (by decide +kernel) (by decide +kernel),
    hspared _ _ 8 (by decide +kernel) (by decide +kernel),
    hspared' _ _ _ (by decide +kernel) (by decide +kernel), hkept _ 1 (by decide +kernel),
    hkept' _ _ (by decide +kernel)⟩

end Archon.Kernel.Cluster
