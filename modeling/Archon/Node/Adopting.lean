import Archon.Node.Evidence

/-! Adoption. A returning member is taken over only with complete proof of the session its
machine is in: its status, an enumeration that agrees with the kernel's records, every stray
close acknowledged, and one report for each of its open bindings. -/
namespace Archon.Node
open Archon.Kernel Fallible Service

def Tag.isStray : Tag → Bool
  | .strayFence _ _ _ _ _ _ _ => true
  | _ => false

/-- The close of a stray generation is acknowledged for its own binding. -/
def Closes (tag : Tag) (entry : Entry) : Prop :=
  ∃ machine session node provider scope id fence,
    tag = .strayFence machine session node provider scope id fence ∧
    entry.seen = .absorbed tag (.ok (.fenced id.asU64))

/-- Every stray close the machine was sent in its recovery waits or is acknowledged. -/
def StraysSettled (machine : NodeId) (waiting : Finset Tag) (trace : List Entry) : Prop :=
  ∀ before sent after tag request, trace = before ++ sent :: after →
    sent.seen = .dispatched machine tag request → tag.isStray →
    (∀ entry ∈ after, entry.seen ≠ .recovering machine) →
    tag ∈ waiting ∨ ∃ entry ∈ after, Closes tag entry

/-- A report lies on the machine and has the coordinates the kernel has of its binding. -/
def Agrees (s : NodeService) (machine : NodeId) (endpoint : EnumeratedEndpoint) : Prop :=
  s.cluster.graph.machineOf ⟨endpoint.node⟩ = some machine ∧
    ∀ id record, endpoint.binding = some id → s.cluster.bindings[(⟨id⟩ : BindingId)]? = some record →
      sameGeneration endpoint record

/-- A binding is active, and a single report speaks about it: open, active and of its generation. -/
def Matched (endpoints : List EnumeratedEndpoint) (record : Binding) : Prop :=
  record.state = .active ∧ ∃ endpoint, MachineRecovery.candidates endpoints record = [endpoint] ∧
    sameGeneration endpoint record ∧ endpoint.isOpen ∧ endpoint.phase = .active

/-- The evidence of one session about a member. -/
structure SessionProof (before : List Entry) (s : NodeService) (lease : LeaseId) (machine : NodeId)
    (status : MemberStatus) (session : UInt64) : Prop where
  current : s.cluster.sessions[machine]? = some session
  alive : status.running || status.exitCode.isSome
  reported : ∃ answer ∈ before, answer.seen = .absorbed (.status lease machine session)
    (.ok (.running lease.asU64 status.running status.exitCode))
  enumerated : ∃ endpoints, (∃ answer ∈ before,
    answer.seen = .absorbed (.enumerate machine session) (.ok (.bindingsEnumerated endpoints)) ∧
    ∀ endpoint ∈ endpoints, Agrees answer.service machine endpoint) ∧
    ∀ (id : BindingId) (record : Binding), s.cluster.bindings[id]? = some record → record.lease = lease →
      record.state.isClosed = false → s.cluster.graph.machineOf record.node = some machine →
      Matched endpoints record

/-- A member was adopted: the join found its lease active, and nothing but its own completion
has ended it since. -/
structure Adopted (before : List Entry) (s : NodeService) (lease : LeaseId) (machine : NodeId)
    (status : MemberStatus) : Prop where
  joined : ∃ earlier join rest, before = earlier ++ join :: rest ∧
    join.seen = .joined lease machine status ∧ join.service.leaseIsActive lease ∧
    (∀ entry ∈ rest, settlesMember lease entry.seen) ∧
    (s.leaseIsActive lease ∨ ∃ entry ∈ rest, ∃ code, entry.seen = .committed (.completeLease lease code))
  proven : ∃ session, SessionProof before s lease machine status session
  strays : StraysSettled machine ∅ before

def AdoptionProven (before : List Entry) (entry : Entry) : Prop :=
  ∀ lease machine running exitCode,
    entry.seen = .decided (.memberRecovered lease machine running exitCode) →
    Adopted before entry.service lease machine ⟨running, exitCode⟩

variable {own : Bool} {licence : Licence} {w u : World} {machine : NodeId} {lease : LeaseId}

/-! Stray closes. -/

theorem Closes.unsent {tag : Tag} {entry : Entry} {request : AgentRequest} (h : Closes tag entry) :
    entry.seen ≠ .dispatched machine tag request := by
  obtain ⟨_, _, _, _, _, _, _, -, hseen⟩ := h
  rw [hseen]
  intro heq
  cases heq

theorem StraysSettled.append {waiting waiting' : Finset Tag} {trace extra : List Entry}
    (h : StraysSettled machine waiting trace)
    (hwaiting : ∀ tag ∈ waiting, tag ∈ waiting' ∨ ∃ entry, trace.getLast? = some entry ∧ Closes tag entry)
    (hextra : ∀ entry ∈ extra, ∀ tag request, entry.seen = .dispatched machine tag request →
      tag.isStray → tag ∈ waiting') : StraysSettled machine waiting' (trace ++ extra) := by
  intro before sent after tag request htrace hsent hstray hsince
  rcases List.append_eq_append_iff.mp htrace with ⟨more, rfl, hmore⟩ | ⟨more, rfl, hmore⟩
  · refine .inl (hextra sent ?_ tag request hsent hstray)
    rw [hmore]
    exact List.mem_append_right _ List.mem_cons_self
  · cases more with
    | nil =>
      refine .inl (hextra sent ?_ tag request hsent hstray)
      rw [List.nil_append] at hmore
      rw [← hmore]
      exact List.mem_cons_self
    | cons first rest =>
      obtain ⟨rfl, rfl⟩ : sent = first ∧ after = rest ++ extra := by simpa using hmore
      have hbefore : ∀ entry ∈ rest, entry.seen ≠ .recovering machine := fun entry hentry =>
        hsince entry (List.mem_append_left _ hentry)
      rcases h before sent rest tag request rfl hsent hstray hbefore with hmem | ⟨entry, hentry, hcloses⟩
      · rcases hwaiting tag hmem with hkept | ⟨last, hlast, hcloses⟩
        · exact .inl hkept
        · right
          cases hrest : rest.getLast? with
          | none =>
            rw [List.getLast?_eq_none_iff] at hrest
            subst hrest
            rw [List.getLast?_append] at hlast
            cases hlast
            exact absurd hsent hcloses.unsent
          | some final =>
            rw [List.getLast?_append, List.getLast?_cons, hrest] at hlast
            cases hlast
            exact ⟨final, List.mem_append_left _ (List.mem_of_getLast? hrest), hcloses⟩
      · exact .inr ⟨entry, List.mem_append_left _ hentry, hcloses⟩

theorem straysSettled_begun {service : NodeService} {waiting : Finset Tag} (trace : List Entry) :
    StraysSettled machine waiting (trace ++ [⟨service, .recovering machine⟩]) := by
  intro before sent after tag request htrace hsent hstray hsince
  rcases List.eq_nil_or_concat after with rfl | ⟨init, last, rfl⟩
  · obtain ⟨-, hsame⟩ := List.append_inj' htrace rfl
    cases hsame
    cases hsent
  · rw [List.concat_eq_append, ← List.cons_append, ← List.append_assoc] at htrace
    obtain ⟨-, hsame⟩ := List.append_inj' htrace rfl
    cases hsame
    exact absurd rfl (hsince ⟨service, .recovering machine⟩ (by simp))

theorem Revised.waiting {recovery : MachineRecovery} (h : Revised w u machine recovery) :
    u.trace = w.trace ++ [⟨w.service, .recovering machine⟩] ∨
    ∃ old, w.service.recoveringMachines[machine]? = some old ∧ ∀ tag ∈ old.strayFences,
      tag ∈ recovery.strayFences ∨ ∃ entry, w.trace.getLast? = some entry ∧ Closes tag entry := by
  cases h with
  | begun session htrace => exact .inl htrace
  | same hold | await hold | status hold | endpoints hold | join hold =>
    exact .inr ⟨_, hold, fun tag htag => .inl htag⟩
  | stray hold added => exact .inr ⟨_, hold, fun tag htag => .inl (Finset.mem_insert_of_mem htag)⟩
  | @closed old session node provider scope id fence entry hold hentry hseen =>
    refine .inr ⟨_, hold, fun tag htag => ?_⟩
    by_cases hsame : tag = .strayFence machine session node provider scope id fence
    · subst hsame
      exact .inr ⟨entry, hentry, _, _, _, _, _, _, _, rfl, hseen⟩
    · exact .inl (Finset.mem_erase.mpr ⟨hsame, htag⟩)

/-- The strays of every recovery are settled or waited for. -/
def StraysKept (w : World) : Prop :=
  ∀ (machine : NodeId) recovery, w.service.recoveringMachines[machine]? = some recovery →
    StraysSettled machine recovery.strayFences w.trace

theorem Observation.unsent_of_plain {seen : Observation} (h : seen.isPlain) (tag : Tag)
    (request : AgentRequest) : seen ≠ .dispatched machine tag request := by
  rintro rfl
  cases h

theorem Stir.straysKept (h : Stir licence w u) (hw : StraysKept w) : StraysKept u := by
  intro machine recovery hrecovery
  have hrevised := h.revised hrecovery
  have hextra : ∀ extra, u.trace = w.trace ++ extra →
      (∀ entry ∈ extra, ∀ tag request, entry.seen = .dispatched machine tag request → tag.isStray →
        tag ∈ recovery.strayFences) → StraysSettled machine recovery.strayFences u.trace := by
    intro extra htrace hsent
    rcases hrevised.waiting with hbegun | ⟨old, hold, hwaiting⟩
    · rw [hbegun]
      exact straysSettled_begun w.trace
    · rw [htrace]
      exact (hw machine old hold).append hwaiting hsent
  cases h.adds with
  | plain extra htrace hplain =>
    exact hextra extra htrace fun entry hentry tag request hseen =>
      absurd hseen (Observation.unsent_of_plain (hplain entry hentry) tag request)
  | report event hevent htrace =>
    refine hextra _ htrace fun entry hentry tag request hseen => ?_
    rw [List.mem_singleton.mp hentry] at hseen
    cases hseen
  | call host sent request hcalls hu =>
    subst hu
    unfold World.call at hrecovery hextra ⊢
    split at hrecovery
    · rename_i hagent
      rw [if_pos hagent] at hextra ⊢
      refine hextra _ rfl fun entry hentry tag other hseen hstray => ?_
      rw [List.mem_singleton.mp hentry] at hseen
      cases hseen
      cases hcalls with
      | stray hclosed hcall hwaiting hmem =>
        rw [show w.service.recoveringMachines[machine]? = some recovery from hrecovery] at hwaiting
        cases hwaiting
        exact hmem
      | _ => cases hstray
    · rename_i hagent
      rw [if_neg hagent] at hextra ⊢
      exact hextra [] (List.append_nil _).symm (by simp)

/-! Joins with complete evidence. -/

theorem matched_of_proves {recovery : MachineRecovery} {endpoints : List EnumeratedEndpoint}
    {record : Binding} (hendpoints : recovery.endpoints = some endpoints) (h : recovery.proves record) :
    Matched endpoints record := by
  unfold MachineRecovery.proves at h
  rw [hendpoints] at h
  dsimp only at h
  split at h
  · rename_i endpoint hcandidates
    simp only [Bool.and_eq_true, decide_eq_true_eq] at h
    exact ⟨h.1.1.1, endpoint, hcandidates, h.1.1.2, h.1.2, h.2⟩
  · cases h

theorem agrees_of_consistent {s : NodeService} {endpoint : EnumeratedEndpoint}
    (h : inconsistent s machine endpoint = false) : Agrees s machine endpoint := by
  simp only [inconsistent, Bool.or_eq_false_iff, decide_eq_false_iff_not, not_not] at h
  refine ⟨h.1.1, fun id record hbinding hrecord => ?_⟩
  have hsame := h.2
  rw [hbinding, Option.bind_some, hrecord, Option.any_some, Bool.not_eq_false'] at hsame
  exact hsame

/-- An active member that is alive was joined with its strays closed and its open bindings matched. -/
def JoinProven (before : List Entry) (entry : Entry) : Prop :=
  ∀ lease machine status, entry.seen = .joined lease machine status →
    entry.service.leaseIsActive lease → status.running || status.exitCode.isSome →
    StraysSettled machine ∅ before ∧ ∃ recovery endpoints,
      entry.service.recoveringMachines[machine]? = some recovery ∧ recovery.endpoints = some endpoints ∧
      ∀ (id : BindingId) (record : Binding), entry.service.cluster.bindings[id]? = some record →
        record.lease = lease → record.state.isClosed = false →
        entry.service.cluster.graph.machineOf record.node = some machine → Matched endpoints record

theorem joinProven_of_joinable {status : MemberStatus} {recovery : MachineRecovery} (hw : Grounded w)
    (hkept : StraysKept w) (h : Joinable w.service lease machine status recovery) :
    JoinProven w.trace ⟨w.service, .joined lease machine status⟩ := by
  intro other host found hseen hactive halive
  cases hseen
  have hproven := h.proven hactive halive
  unfold endpointsProven MachineRecovery.endpointsSettled at hproven
  simp only [Bool.and_eq_true, decide_eq_true_eq, List.all_eq_true] at hproven
  obtain ⟨⟨hlisted, hclosed⟩, hbindings⟩ := hproven
  obtain ⟨endpoints, hendpoints⟩ := Option.isSome_iff_exists.mp hlisted
  refine ⟨?_, recovery, endpoints, h.recovering, hendpoints, fun id record hrecord hlease hopen hmachine => ?_⟩
  · have hsettled := hkept machine recovery h.recovering
    rwa [hclosed] at hsettled
  · exact matched_of_proves hendpoints
      (hbindings record ((mem_openBindingsOn hw).mpr ⟨id, hrecord, hlease, hopen, hmachine⟩))

/-- What is held of joins and adoptions all along. -/
structure Adopts (w : World) : Prop where
  evident : Evident w
  awaited : Awaited w
  strays : StraysKept w
  joined : Throughout JoinProven w.trace
  adopted : Throughout AdoptionProven w.trace

/-- Nothing is decided between a join and the report that the member was recovered. -/
theorem straysSettled_since {earlier rest : List Entry} {join : Entry} {status : MemberStatus}
    (h : StraysSettled machine ∅ earlier) (hjoin : join.seen = .joined lease machine status)
    (hrest : ∀ entry ∈ rest, settlesMember lease entry.seen) :
    StraysSettled machine ∅ (earlier ++ join :: rest) := by
  refine h.append (fun tag htag => .inl htag) fun entry hentry tag request hseen => ?_
  rcases List.mem_cons.mp hentry with rfl | hentry
  · rw [hjoin] at hseen
    cases hseen
  · have hsettles := hrest entry hentry
    rw [hseen] at hsettles
    cases hsettles

theorem adopted_of_recovers {running : Bool} {exitCode : Option Int32} (hw : Adopts w)
    (h : Recovers w lease machine running exitCode) :
    Adopted w.trace w.service lease machine ⟨running, exitCode⟩ := by
  obtain ⟨join, hsince, hterminal, halive⟩ := h
  obtain ⟨earlier, rest, htrace, hrest, hsettled⟩ := hsince.shape
  have hactive := active_of_settled (hw.awaited.joins join hsince.mem lease machine _ hsince.seen) hterminal
  obtain ⟨recovery, hjoinable, hholds⟩ := hw.evident.joined earlier join rest htrace _ _ _ hsince.seen
  obtain ⟨hstrays, found, endpoints, hfound, hendpoints, hmatched⟩ :=
    hw.joined earlier join rest htrace _ _ _ hsince.seen hactive halive
  rw [hjoinable.recovering] at hfound
  cases hfound
  obtain ⟨session, reply, hcurrent, ⟨answer, hanswer, hanswered⟩, hstatus⟩ :=
    hholds.members _ _ hjoinable.member
  obtain ⟨session', hcurrent', listing, hlisting, hlisted, hconsistent⟩ := hholds.endpoints _ hendpoints
  rw [hcurrent] at hcurrent'
  cases hcurrent'
  have hearlier : ∀ entry ∈ earlier, entry ∈ w.trace := by
    rw [htrace]
    exact fun entry hentry => List.mem_append_left _ hentry
  refine ⟨⟨earlier, join, rest, htrace, hsince.seen, hactive, hrest, ?_⟩, ⟨session, ?_⟩, ?_⟩
  · rcases hsettled with hsame | hcompleted
    · left
      unfold NodeService.leaseIsActive at hactive ⊢
      rwa [hsame]
    · exact .inr hcompleted
  · refine ⟨by rw [hsince.sessions]; exact hcurrent, halive, ⟨answer, hearlier answer hanswer, ?_⟩,
      endpoints, ⟨listing, hearlier listing hlisting, hlisted, fun endpoint hendpoint => ?_⟩, ?_⟩
    · rw [hanswered, reply_of_alive hstatus halive]
    · exact agrees_of_consistent (Bool.eq_false_iff.mpr
        (List.any_eq_false.mp hconsistent endpoint hendpoint))
    · intro id record hrecord hlease hopen hmachine
      -- the binding stood at the join as it stands now, up to its session
      have hsame := hsince.bindings id
      rw [hrecord] at hsame
      cases hbefore : join.service.cluster.bindings[id]? with
      | none => simp [hbefore] at hsame
      | some before =>
        rw [hbefore] at hsame
        have hunsessioned : unsessioned record = unsessioned before := Option.some.inj hsame
        have hfields := hunsessioned
        simp only [unsessioned, Binding.mk.injEq] at hfields
        obtain ⟨-, hsameLease, hnode, -, -, -, -, hstate, -⟩ := hfields
        have hmatch : Matched endpoints (unsessioned before) := hmatched id before hbefore
          (hsameLease ▸ hlease) (hstate ▸ hopen) (by rw [← hsince.graph, ← hnode]; exact hmachine)
        rw [← hunsessioned] at hmatch
        exact hmatch
  · rw [htrace]
    exact straysSettled_since hstrays hsince.seen hrest

theorem Stir.adopts (hown : licence.sessions = false) (h : Stir licence w u) (hw : Kept w)
    (hadopts : Adopts w) : Adopts u := by
  have hground := hw.now.grounded
  refine ⟨h.evident hown hground hadopts.evident, h.awaited hground hadopts.awaited,
    h.straysKept hadopts.strays, ?_, ?_⟩
  · rcases h.joins with ⟨extra, htrace, hextra⟩ | ⟨hjoinable, htrace⟩
    · rw [htrace]
      refine hadopts.joined.append fun entry hentry before lease machine status hseen => ?_
      have hother := hextra entry hentry
      rw [hseen] at hother
      cases hother
    · rw [htrace]
      exact hadopts.joined.concat (joinProven_of_joinable hground hadopts.strays hjoinable)
  · refine h.adds.throughout ?_ ?_ ?_ hadopts.adopted
    · intro before entry hplain lease machine running exitCode hseen
      rw [hseen] at hplain
      cases hplain
    · rintro machine tag request - lease host running exitCode hseen
      cases hseen
    · intro event hevent lease machine running exitCode hseen
      cases hseen
      exact adopted_of_recovers hadopts (hevent _ _ _ _ rfl)

namespace Process

/-- In every run, whatever the agents answer and in whatever order, a member is reported
recovered only with complete proof of the session its machine is in. -/
theorem adoption_proven {cluster : Cluster} {state : ServiceState} (hcluster : cluster.Reachable)
    (hstate : Numbered state) (durableSink : Bool) {operations : List Operation}
    (h : OwnSessions operations) :
    Throughout AdoptionProven ((boot cluster state durableSink).run operations).world.trace := by
  have hstart : Adopts (boot cluster state durableSink).world := by
    refine ⟨evident_boot cluster state durableSink, awaited_boot cluster state durableSink,
      fun machine recovery hrecovery => ?_, .nil, .nil⟩
    simp [boot, NodeService.new] at hrecovery
  exact (run_stirs (kept_boot hcluster hstate durableSink) hstart
    (fun w u hw hstir hadopts => hstir.adopts rfl hw hadopts) (permits_ownSessions h)).2.adopted

namespace Sample

def host : MachineDescription := ⟨"a", "a", 1, 1, [], []⟩

def endpoint : EnumeratedEndpoint := ⟨2, ProviderId.enforce.asU64, .exclusive, some 1, true, 1, .active⟩

/-- A machine holds a CPU for a lease, returns and reports its member exited. -/
def returns : List Operation :=
  [.register host ⟨.default, .default⟩,
   .apply (.openLease 1 1 ⟨[⟨2, qty .count 1⟩], 1, ⟨"", []⟩⟩ none 100 100 0),
   .apply (.openBinding 1 1 2 .enforce .exclusive),
   .apply (.recordBindingPrepared 1 1 9 1),
   .apply (.activateLease 1),
   .apply (.activateBinding 1),
   .apply (.recordBindingActive 1 1 1),
   .register host ⟨.default, .default⟩,
   .post (.status 1 1 2) (.ok (.running 1 false (some 0))),
   .post (.enumerate 1 2) (.ok (.bindingsEnumerated [endpoint])),
   .drive []]

end Sample

theorem adoption_proven_returns :
    Throughout AdoptionProven ((boot .new .new false).run Sample.returns).world.trace ∧
    ∃ entry ∈ ((boot .new .new false).run Sample.returns).world.trace,
      entry.seen = .decided (.memberRecovered 1 1 false (some 0)) := by
  have hown : OwnSessions Sample.returns := by
    intro machine session h
    simp [Sample.returns] at h
  constructor
  · exact @adoption_proven .new .new ⟨[], rfl⟩ numbered_new false Sample.returns hown
  · decide +kernel

/-- The exit of its last member completes a lease before the recovery is reported. -/
theorem recovered_member_completed : ∃ entry ∈ ((boot .new .new false).run Sample.returns).world.trace,
    entry.seen = .decided (.memberRecovered 1 1 false (some 0)) ∧
    entry.service.leaseIsActive 1 = false := by
  decide +kernel

end Process
end Archon.Node
