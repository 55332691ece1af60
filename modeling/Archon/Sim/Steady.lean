import Archon.Sim.Safety

/-! Programs of the world that keep it safe, whatever their outcome: the trace
replays to the cluster, the endpoints stay safe and every effect in flight is
about a binding of the cluster. -/
namespace Archon.Sim
open Std Fallible Archon.Kernel Cluster

namespace World
variable {w w' : World} {command : Command}

/-- The trace replays to the cluster, the endpoints are safe and the effects in
flight are about bindings of the cluster. -/
structure Inv (w : World) : Prop where
  replays : w.replayTrace = .ok w.cluster
  safe : Safe w.cluster w.endpoints
  named : Named w.pending w.cluster

theorem inv_new : Inv new := ⟨rfl, safe_new, named_nil _⟩

theorem replay_concat {trace : List TraceEvent} {event : TraceEvent} {c c' : Cluster}
    (htrace : trace.foldlM replayEvent .new = .ok c) (hevent : replayEvent c event = .ok c') :
    (trace ++ [event]).foldlM replayEvent .new = .ok c' := by
  rw [List.foldlM_append, htrace]
  simpa using hevent

theorem reachable_of_replay {trace : List TraceEvent} {c : Cluster}
    (h : trace.foldlM replayEvent .new = .ok c) : ∃ events, c = Cluster.run events := by
  induction trace using List.reverseRecOn generalizing c with
  | nil =>
    cases h
    exact ⟨[], rfl⟩
  | append_singleton trace event ih =>
    rw [List.foldlM_append, check_bind_ok] at h
    obtain ⟨before, hbefore, h⟩ := h
    obtain ⟨events, rfl⟩ := ih hbefore
    simp only [List.foldlM_cons, List.foldlM_nil, check_bind_ok, check_pure_ok] at h
    obtain ⟨_, h, rfl⟩ := h
    have hreach : ∀ event : Event, (Cluster.run events).take event = Cluster.run (events ++ [event]) :=
      fun event => (Cluster.run_concat events event).symm
    cases event with
    | command command =>
      refine ⟨events ++ [.apply command], ?_⟩
      rw [← hreach]
      cases happly : Cluster.apply command (Cluster.run events) with
      | ok effects next =>
        simp only [replayEvent, happly, Except.ok.injEq] at h
        simp only [Cluster.take, happly, h]
      | error e left =>
        simp only [replayEvent, happly] at h
        cases h
    | setNow now =>
      cases h
      exact ⟨events ++ [Event.setNow now], hreach (Event.setNow now)⟩
    | setAgreement agreed =>
      cases h
      exact ⟨events ++ [Event.setAgreement agreed], hreach (Event.setAgreement agreed)⟩
    | advanceEpoch =>
      cases h
      exact ⟨events ++ [Event.advanceEpoch], hreach Event.advanceEpoch⟩
    | deliver | drop | restartAgent =>
      cases h
      exact ⟨events, rfl⟩

theorem Inv.wellFormed (h : Inv w) : WellFormed w.cluster := by
  obtain ⟨events, hevents⟩ := reachable_of_replay h.replays
  rw [hevents]
  exact wellFormed_run events

/-! Programs that keep the invariant. -/

/-- Whatever its outcome, the program keeps the invariant and the bindings. -/
def Steady (w : World) (program : WorldM α) : Prop :=
  Inv w → Inv (after program w) ∧ BindingsKept w.cluster (after program w).cluster

theorem steady_pure (a : α) : Steady w (pure a) := fun h => ⟨h, .refl _⟩

theorem Steady.bind {program : WorldM α} {next : α → WorldM β} (h : Steady w program)
    (hnext : ∀ a w', program w = .ok a w' → Inv w' → BindingsKept w.cluster w'.cluster →
      Steady w' (next a)) : Steady w (program >>= next) := by
  intro hinv
  refine @after_bind _ _ _ _ (fun w' => Inv w' ∧ BindingsKept w.cluster w'.cluster) _ _ _ (h hinv)
    fun a w' hok => ?_
  obtain ⟨hinv', hkept⟩ := h hinv
  rw [after_of_ok hok] at hinv' hkept
  obtain ⟨hlast, hkept'⟩ := hnext a w' hok hinv' hkept hinv'
  exact ⟨hlast, hkept.trans hkept'⟩

theorem steady_modify {f : World → World} (hf : Inv w → Inv (f w))
    (hcluster : (f w).cluster = w.cluster) : Steady w (modify f) := by
  intro h
  refine ⟨hf h, ?_⟩
  rw [after_modify, hcluster]
  exact .refl _

theorem Steady.map {program : WorldM α} (h : Steady w program) (f : α → β) :
    Steady w (f <$> program) := by
  intro hinv
  rw [after_map]
  exact h hinv

theorem steady_get_bind {next : World → WorldM α} (h : Steady w (next w)) :
    Steady w (get >>= next) := h

theorem steady_pushEffects {effects : List Effect} (h : Named effects w.cluster) :
    Steady w (pushEffects effects) :=
  steady_modify (fun hinv => ⟨hinv.replays, hinv.safe, named_append.mpr ⟨hinv.named, h⟩⟩) rfl

/-- The endpoints stay safe whatever step the command takes. -/
def Tolerates (w : World) (command : Command) : Prop :=
  ∀ c', Step w.cluster command c' → Safe c' w.endpoints

theorem commit_cases (h : Inv w) (command : Command) :
    (∃ e, commit command w = .error e w) ∨
    ∃ effects c', Step w.cluster command c' ∧
      Named effects { c' with log := c'.log ++ [command] } ∧
      replayEvent w.cluster (.command command) = .ok { c' with log := c'.log ++ [command] } ∧
      commit command w = .ok effects { w with
        cluster := { c' with log := c'.log ++ [command] }
        trace := w.trace ++ [.command command] } := by
  have hatomic := apply_atomic h.wellFormed command
  cases happly : Cluster.apply command w.cluster with
  | error e left =>
    refine .inl ⟨e, ?_⟩
    obtain rfl := hatomic e left happly
    change EStateM.bind (onCluster (Cluster.apply command)) _ w = _
    simp only [EStateM.bind, onCluster, happly]
  | ok effects next =>
    refine .inr ?_
    have hreplay : replayEvent w.cluster (.command command) = .ok next := by
      simp only [replayEvent, happly]
    have hcommit : commit command w = .ok effects { w with
        cluster := next, trace := w.trace ++ [.command command] } := by
      change EStateM.bind (onCluster (Cluster.apply command)) _ w = _
      simp only [EStateM.bind, onCluster, happly]
      rfl
    simp only [Cluster.apply, bind_ok, modify_ok, pure_ok] at happly
    obtain ⟨_, c', hdispatch, _, _, rfl, rfl, rfl⟩ := happly
    have hkeys : BindingsKeyed w.cluster := fun id binding hb => h.wellFormed.bindings.key hb
    have hnamed := yields_dispatch hkeys command _ _ hdispatch
    exact ⟨_, c', step_of_dispatch hdispatch, hnamed, hreplay, hcommit⟩

theorem steady_commit (htolerates : Inv w → Tolerates w command) : Steady w (commit command) := by
  intro h
  rcases commit_cases h command with ⟨e, hcommit⟩ | ⟨effects, c', hstep, -, hreplay, hcommit⟩
  · have hafter : after (commit command) w = w := by simp [after, hcommit]
    rw [hafter]
    exact ⟨h, .refl _⟩
  · have hmoved := bindingsKept_of_step hstep
    have hkept : BindingsKept w.cluster { c' with log := c'.log ++ [command] } := hmoved
    rw [after_of_ok hcommit]
    exact ⟨⟨replay_concat h.replays hreplay, (htolerates h c' hstep).congr rfl rfl,
      fun effect heffect => hkept.names (h.named effect heffect)⟩, hkept⟩

theorem named_of_commit (h : Inv w) {effects : List Effect} (hok : commit command w = .ok effects w') :
    Named effects w'.cluster := by
  rcases commit_cases h command with ⟨e, hcommit⟩ | ⟨_, c', -, hnamed, -, hcommit⟩
  · rw [hok] at hcommit
    cases hcommit
  · rw [hok] at hcommit
    cases hcommit
    exact hnamed

theorem steady_commit_bind (htolerates : Inv w → Tolerates w command) {next : List Effect → WorldM α}
    (hnext : ∀ effects w', Named effects w'.cluster → Steady w' (next effects)) :
    Steady w (commit command >>= next) := by
  intro h
  exact (steady_commit htolerates).bind (fun effects w' hok _ _ =>
    hnext effects w' (named_of_commit h hok)) h

theorem steady_apply (htolerates : Inv w → Tolerates w command) : Steady w (apply command) :=
  steady_commit_bind htolerates fun effects _ hnamed =>
    (steady_pushEffects hnamed).bind fun _ _ _ _ _ => steady_pure effects

/-! Delivery. -/

theorem tolerates_of_calm (hcalm : Calm w.cluster command) (h : Inv w) : Tolerates w command :=
  fun _ hstep => h.safe.calm hcalm hstep

theorem meets_getD (order : EndpointOrder) :
    Meets w.endpoints ⟨order.provider, order.node⟩
      (w.endpoints[(⟨order.provider, order.node⟩ : EndpointKey)]?.getD
        (Endpoint.new order.provider order.node order.session)) := by
  cases hkey : w.endpoints[(⟨order.provider, order.node⟩ : EndpointKey)]? with
  | some e => exact .inl hkey
  | none => exact .inr ⟨hkey, rfl, rfl, rfl⟩

/-- An order leaves the cluster alone, and the endpoints safe for whatever it
reports back. -/
theorem serve_spec (h : Inv w) {order : EndpointOrder} (hnames : order.Names w.cluster.bindings) :
    ∃ report w', serve order w = .ok report w' ∧ w'.cluster = w.cluster ∧ Inv w' ∧
      ∀ command, report = some command → Tolerates w' command := by
  have hmeets := @meets_getD w order
  unfold serve
  dsimp only
  generalize w.endpoints[(⟨order.provider, order.node⟩ : EndpointKey)]?.getD
    (Endpoint.new order.provider order.node order.session) = e at hmeets
  cases hserved : Endpoint.apply order.op order.binding order.fence order.session e with
  | ok u e' =>
    have happlied := (Endpoint.apply_ok hserved).2
    have hsafe := h.safe.applied hnames hmeets happlied
    refine ⟨_, _, rfl, rfl, ⟨h.replays, hsafe, h.named⟩, ?_⟩
    rintro _ ⟨⟩ c' hstep
    refine hsafe.record ?_ hstep fun id session binding hbinding hcommand => ?_
    · cases hop : order.op <;> simp [acknowledgement, hop, acknowledges]
    · have hclosing : (order.op = .release ∨ order.op = .fence) ∧ order.binding = id ∧
          order.fence = binding.fence := by
        cases hop : order.op <;> simp_all [acknowledgement]
      obtain ⟨hop, rfl, hfence⟩ := hclosing
      obtain ⟨named, hnamed, hnode, hprovider, -⟩ := hnames
      obtain rfl : named = binding := Option.some.inj (hnamed.symm.trans hbinding)
      refine ⟨e', ?_, hfence ▸ happlied.seals hop⟩
      rw [endpointOf, hprovider, hnode, OrdMap.get_insert, if_pos rfl]
  | error err e' =>
    obtain rfl := @Endpoint.apply_atomic order.op order.binding order.fence order.session e err e' hserved
    have hfenced := h.safe.meets_fenced hmeets
    have hheld := @h.safe.meets_held _ _ _ _ hmeets
    have hsafe := h.safe.insert hmeets (.refl _) hfenced hheld
    refine ⟨_, _, rfl, rfl, ⟨h.replays, hsafe, h.named⟩, ?_⟩
    intro command hreport c' hstep
    split at hreport
    · cases hreport
      exact hsafe.record rfl hstep (by simp)
    · cases hreport

theorem applyEffect_spec (h : Inv w) {effect : Effect} (hnames : effect.Names w.cluster.bindings) :
    ∃ report w', applyEffect effect w = .ok report w' ∧ w'.cluster = w.cluster ∧ Inv w' ∧
      ∀ command, report = some command → Tolerates w' command := by
  have hquiet : ∃ report w', (pure none : WorldM (Option Command)) w = .ok report w' ∧
      w'.cluster = w.cluster ∧ Inv w' ∧ ∀ command, report = some command → Tolerates w' command :=
    ⟨none, w, rfl, rfl, h, by simp⟩
  have hget : ∀ next : World → WorldM (Option Command), (get >>= next) w = next w w := fun _ => rfl
  unfold applyEffect
  cases horder : effect.order with
  | none => exact hquiet
  | some order =>
    simp only [hget]
    cases w.cluster.graph.machineOf order.node with
    | none => exact hquiet
    | some machine =>
      dsimp only
      cases w.agents[machine]? with
      | none => exact hquiet
      | some agent =>
        dsimp only
        split
        · exact hquiet
        · exact @serve_spec { w with agents := w.agents.insert machine { agent with
            epoch := if agent.epoch < order.epoch then order.epoch else agent.epoch } }
            ⟨h.replays, h.safe, h.named⟩ order (hnames order horder)

theorem named_of_binding {c : Cluster} {id : BindingId} {binding : Binding} {effect : Effect}
    (hbinding : c.bindings[id]? = some binding)
    (hfields : ∀ order, effect.order = some order → order.binding = id ∧
      order.node = binding.node ∧ order.provider = binding.provider ∧ order.fence = binding.fence) :
    Named [effect] c := by
  rw [named_singleton]
  intro order horder
  obtain ⟨rfl, hnode, hprovider, hfence⟩ := hfields order horder
  exact ⟨binding, hbinding, hnode.symm, hprovider.symm, hfence.symm⟩

theorem named_of_kept {id : BindingId} {binding : Binding} {effect : Effect}
    (hbinding : w.cluster.bindings[id]? = some binding)
    (hkept : BindingsKept w.cluster w'.cluster)
    (hfields : ∀ order, effect.order = some order → order.binding = id ∧
      order.node = binding.node ∧ order.provider = binding.provider ∧ order.fence = binding.fence) :
    Named [effect] w'.cluster := by
  have hnamed := named_of_binding hbinding hfields
  exact named_singleton.mpr (hkept.names (named_singleton.mp hnamed))

theorem steady_reconcileBindings (session epoch : UInt64) (failedLeases : List LeaseId)
    (ids : List BindingId) (w : World) :
    Steady w (reconcileBindings session epoch failedLeases ids) := by
  induction ids generalizing w failedLeases with
  | nil => exact steady_pure ()
  | cons id rest ih =>
    rw [reconcileBindings]
    apply steady_get_bind
    cases hbinding : w.cluster.bindings[id]? with
    | none => exact ih failedLeases w
    | some binding =>
      dsimp only
      split
      · -- the endpoint proves the binding: it moves to the new session
        refine (steady_commit (tolerates_of_calm ⟨rfl, rfl, by simp⟩)).bind fun _ w' _ _ hkept => ?_
        have hlast : ∀ w', BindingsKept w.cluster w'.cluster → Steady w' (do
            if binding.state = .active then
              pushEffects [.activate id binding.node binding.provider binding.fence session epoch]
            reconcileBindings session epoch failedLeases rest) := by
          intro w' hkept
          dsimp only
          split
          · refine (steady_pushEffects ?_).bind fun _ w'' _ _ _ => ih failedLeases w''
            exact named_of_kept hbinding hkept (by rintro _ ⟨⟩; exact ⟨rfl, rfl, rfl, rfl⟩)
          · exact ih failedLeases w'
        split
        · refine (steady_pushEffects ?_).bind fun _ w'' _ _ hkept' => hlast w'' (hkept.trans hkept')
          exact named_of_kept hbinding hkept (by rintro _ ⟨⟩; exact ⟨rfl, rfl, rfl, rfl⟩)
        · exact hlast w' hkept
      · split
        · split
          · refine (steady_apply (tolerates_of_calm ⟨rfl, rfl, by simp⟩)).bind fun _ w' _ _ _ => ?_
            exact ih _ w'
          · refine (steady_pushEffects ?_).bind fun _ w' _ _ _ => ih failedLeases w'
            exact named_of_binding hbinding (by rintro _ ⟨⟩; exact ⟨rfl, rfl, rfl, rfl⟩)
        · exact ih failedLeases w

theorem named_strays (h : Inv w) (machine : NodeId) (session epoch : UInt64) :
    Named (w.endpoints.toList.filterMap (w.strayFence machine session epoch)) w.cluster := by
  intro effect heffect
  obtain ⟨⟨key, e⟩, hentry, hstray⟩ := List.mem_filterMap.mp heffect
  have he : w.endpoints[key]? = some e := ExtTreeMap.mem_toList_iff_getElem?_eq_some.mp hentry
  unfold strayFence at hstray
  split at hstray
  · cases hstray
  rename_i hopen
  obtain ⟨id, binding, hid, hbinding, hkey, hfence, -⟩ :=
    h.safe.held key e he (by simpa using (not_or.mp hopen).2)
  simp only [hid] at hstray
  split at hstray
  · cases hstray
  · cases hstray
    intro order horder
    cases horder
    subst hkey
    exact ⟨binding, hbinding, rfl, (h.safe.provider _ e he).symm, hfence⟩

theorem steady_reconcile (machine : NodeId) (session epoch : UInt64) (ids : List BindingId) :
    Steady w (reconcile machine session epoch ids) := by
  unfold reconcile
  apply steady_get_bind
  cases w.agents[machine]? with
  | none => exact steady_pure ()
  | some agent =>
    dsimp only
    split
    · exact steady_pure ()
    · refine (steady_modify (fun h => ⟨h.replays, h.safe, h.named⟩) rfl).bind fun _ w' _ _ _ => ?_
      refine (steady_reconcileBindings session epoch [] ids w').bind fun _ w'' _ hinv _ => ?_
      exact steady_get_bind (steady_pushEffects (named_strays hinv machine session epoch))

theorem steady_applyEffect {effect : Effect} (hnames : effect.Names w.cluster.bindings) :
    Steady w (applyEffect effect) := by
  intro h
  obtain ⟨report, w', happly, hcluster, hinv, -⟩ := applyEffect_spec h hnames
  rw [after_of_ok happly, hcluster]
  exact ⟨hinv, .refl _⟩

theorem steady_dispatch {effect : Effect} (hnames : effect.Names w.cluster.bindings) :
    Steady w (dispatch effect) := by
  cases effect with
  | reconcile machine session epoch ids => exact steady_reconcile machine session epoch ids
  | prepare | activate | release | fence =>
    intro h
    refine (steady_applyEffect hnames).bind (fun report w' hok _ _ => ?_) h
    obtain ⟨_, _, happly, -, -, htolerates⟩ := applyEffect_spec h hnames
    rw [hok] at happly
    cases happly
    cases report with
    | none => exact steady_pure ()
    | some command =>
      exact steady_commit_bind (fun _ => htolerates command rfl) fun _ _ hnamed =>
        steady_pushEffects hnamed

theorem steady_deliverOne : Steady w deliverOne := by
  unfold deliverOne
  apply steady_get_bind
  cases hpending : w.pending with
  | nil => exact steady_pure false
  | cons effect rest =>
    intro h
    have hnamed : effect.Names w.cluster.bindings := h.named effect (by simp [hpending])
    have hrest : Named rest w.cluster := fun e he => h.named e (by simp [hpending, he])
    have hpopped : Inv { w with pending := rest, trace := w.trace ++ [.deliver] } :=
      ⟨replay_concat h.replays rfl, h.safe, hrest⟩
    refine (steady_modify (fun _ => hpopped) rfl).bind (fun _ w' hok _ _ => ?_) h
    obtain rfl := modify_ok.mp hok
    have hdispatch := @steady_dispatch { w with pending := rest, trace := w.trace ++ [.deliver] }
      effect hnamed
    exact hdispatch.bind fun _ _ _ _ _ => steady_pure true

theorem steady_dropOne : Steady w dropOne := by
  unfold dropOne
  apply steady_get_bind
  cases hpending : w.pending with
  | nil => exact steady_pure false
  | cons effect rest =>
    intro h
    have hrest : Named rest w.cluster := fun e he => h.named e (by simp [hpending, he])
    have hpopped : Inv { w with pending := rest, trace := w.trace ++ [.drop] } :=
      ⟨replay_concat h.replays rfl, h.safe, hrest⟩
    exact (steady_modify (fun _ => hpopped) rfl).bind (fun _ _ _ _ _ => steady_pure true) h

/-! Agents. -/

theorem steady_startAgent (machine : NodeId) : Steady w (startAgent machine) := by
  unfold startAgent
  apply steady_get_bind
  exact (steady_modify (fun h => ⟨h.replays, h.safe, h.named⟩) rfl).bind fun _ _ _ _ _ =>
    steady_pure _

theorem echoes_registered (session : UInt64) (keys : List EndpointKey)
    (endpoints : OrdMap EndpointKey Endpoint) :
    OrdMap.Evolves (fun _ => Echoes) Blank endpoints (keys.foldl (fun endpoints key =>
      OrdMap.upsert endpoints key (Endpoint.new key.provider key.node session)
        fun endpoint => endpoint.handshake session) endpoints) := by
  induction keys generalizing endpoints with
  | nil => exact .refl fun _ => Echoes.refl
  | cons key keys ih =>
    have hfresh : Blank key ((Endpoint.new key.provider key.node session).handshake session) :=
      (Blank.mk rfl rfl rfl).echoed (echoes_handshake _ session)
    have hfirst : OrdMap.Evolves (fun _ => Echoes) Blank endpoints (OrdMap.upsert endpoints key
        (Endpoint.new key.provider key.node session) fun e => e.handshake session) :=
      .upsert (fun _ => Echoes.refl) (fun e => echoes_handshake e session) hfresh
    exact hfirst.trans (ih _) (fun _ _ _ _ => Echoes.trans) fun _ _ _ => Blank.echoed

theorem echoes_map {f : EndpointKey → Endpoint → Endpoint} (hf : ∀ key e, Echoes e (f key e))
    (endpoints : OrdMap EndpointKey Endpoint) :
    OrdMap.Evolves (fun _ => Echoes) Blank endpoints (endpoints.map f) where
  kept key e he := ⟨f key e, by simp [ExtTreeMap.getElem?_map, he], hf key e⟩
  made key e hnone he := by simp [ExtTreeMap.getElem?_map, hnone] at he

theorem steady_registerAgent (machine : NodeId) : Steady w (registerAgent machine) := by
  refine (steady_startAgent machine).bind fun session w' _ _ _ => ?_
  refine (steady_modify (fun h => ⟨h.replays, h.safe.echo (echoes_registered session _ _), h.named⟩)
    rfl).bind fun _ w'' _ _ _ => ?_
  exact (steady_apply (tolerates_of_calm ⟨rfl, rfl, by simp⟩)).bind fun _ _ _ _ _ => steady_pure _

theorem steady_restartAgent (machine : NodeId) : Steady w (restartAgent machine) := by
  refine (steady_startAgent machine).bind fun session w' _ _ _ => ?_
  refine Steady.bind ?_ fun _ w'' _ _ _ => (steady_apply (tolerates_of_calm ⟨rfl, rfl, by simp⟩)).bind
    fun _ _ _ _ _ => steady_pure _
  refine steady_modify (fun h => ⟨?_, h.safe.echo (echoes_map ?_ _), h.named⟩) rfl
  · exact replay_concat h.replays rfl
  · intro key e
    split
    · exact echoes_handshake e session
    · exact .refl e

/-- The trace is all a fresh controller needs. -/
theorem restartController_eq (h : Inv w) : restartController w = .ok () w := by
  change EStateM.bind (attempt w.replayTrace) _ w = _
  simp only [EStateM.bind, attempt, h.replays]
  rfl

theorem steady_restartController : Steady w restartController := by
  intro h
  rw [after_of_ok (restartController_eq h)]
  exact ⟨h, .refl _⟩

end World
end Archon.Sim
