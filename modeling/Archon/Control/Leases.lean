import Archon.Control.Plane

/-! Every lease of a plane is one that its controller granted: the plane's events
bring in no leases, no request ids and no sessions of their own, so the lease
counter is past every lease in whatever state the plane can be in while ids last. -/
namespace Archon.Control
open Archon.Kernel Archon.Node Archon.Node.Service Fallible
variable {w u : World} {α β : Type}

/-- The plane only has groups from outside the controller. -/
def plane : Licence := ⟨false, false, false, true, false, true⟩

/-! The events of a plane. -/

theorem after_caught (program : ServiceM α) (w : World) : after (caught program) w = after program w := by
  unfold after caught
  cases program w with
  | ok a t => rfl
  | error fault t => cases fault <;> rfl

theorem caught_follows {program : ServiceM α} {move : World → World → Prop} (h : Follows move w program) :
    Follows move w (caught program) := by
  unfold Follows
  rw [after_caught]
  exact h

theorem guided_caught {inv : World → Prop} {move : World → World → Prop} {program : ServiceM α}
    (h : Guided inv move program) : Guided inv move (caught program) := fun w hw => caught_follows (h w hw)

theorem guided_bind {program : ServiceM α} {next : α → ServiceM β}
    (h : Guided Kept (Stir plane) program) (hnext : ∀ a, Guided Kept (Stir plane) (next a)) :
    Guided Kept (Stir plane) (program >>= next) := h.bind kept_stirs hnext

theorem admitOne_guided : Guided Kept (Stir plane) admitOne := .of_moving (admitOneWithPolicy_stirs _)

theorem admitFor_guided (requests : List RequestId) : Guided Kept (Stir plane) (admitFor requests) :=
  .forM kept_stirs fun _ _ => guided_bind (guided_caught admitOne_guided) fun _ => .pure _

theorem compileWorkload_id {id : RequestId} {wire : WorkloadWire} {workload : WorkloadSpec}
    (h : compileWorkload id wire = .ok workload) : workload.resources.id = id := by
  simp only [compileWorkload, check_bind_ok, check_pure_ok] at h
  obtain ⟨-, -, needs, -, storage, -, ports, -, -, -, rfl⟩ := h
  rfl

theorem compileSubmission_id {s : NodeService} {spec : SubmitSpec} {workload : WorkloadSpec}
    (h : compileSubmission s spec = .ok workload) : workload.resources.id = ⟨s.state.nextRequestId⟩ := by
  simp only [compileSubmission, check_bind_ok, check_pure_ok] at h
  obtain ⟨-, -, compiled, hcompiled, rfl⟩ := h
  have hid := compileWorkload_id hcompiled
  exact hid

theorem submit_guided (spec : SubmitSpec) : Guided Kept (Stir plane) (submit spec) := by
  intro w hw
  unfold submit
  refine follows_self ?_
  dsimp only
  cases hcompile : compileSubmission w.service spec with
  | error reason => exact .pure _
  | ok workload =>
    have hnew : plane.requests ∨ w.service.state.nextRequestId ≤ workload.resources.id.asU64 := by
      rw [compileSubmission_id hcompile]
      exact .inr (UInt64.le_refl _)
    have hsubmit := submit_follows ⟨spec.owner⟩ hnew
    refine hsubmit.bind fun _ t ht => ?_
    refine guided_bind (guided_caught admitOne_guided) (fun result => ?_) t
      (Guided.ok_inv kept_stirs hsubmit hw ht)
    split
    · exact guided_bind (.of_moving self_moving) fun _ => .pure _
    · exact .pure _
    · exact .pure _

theorem submitService_guided (spec : ServiceSpec) : Guided Kept (Stir plane) (submitService spec) := by
  unfold submitService
  split
  · exact .pure _
  · split
    · exact .pure _
    · refine guided_bind (guided_caught (.of_moving (registerServiceGroup_stirs rfl _))) fun result => ?_
      split
      · exact .pure _
      · exact guided_bind (.of_moving (reconcileServiceGroups_stirs rfl)) fun members =>
          guided_bind (admitFor_guided members) fun _ => .pure _

theorem scaleService_guided (id : String) (target : UInt32) :
    Guided Kept (Stir plane) (scaleService id target) := by
  refine guided_bind (guided_caught (.of_moving (scaleServiceGroup_stirs rfl _ _))) fun result => ?_
  split
  · exact .pure _
  · exact guided_bind (.of_moving (reconcileServiceGroups_stirs rfl)) fun members =>
      guided_bind (admitFor_guided members) fun _ => .pure _

theorem revokeLease_guided (lease : UInt64) : Guided Kept (Stir plane) (revokeLease lease) := by
  refine guided_bind (guided_caught (.of_moving (moving_stirs (revoke_moving _)))) fun result => ?_
  split
  · exact .pure _
  · exact .pure _

theorem tickAndDrive_guided (now : UInt64) (arrivals : List (List (Tag × AgentReply))) :
    Guided Kept (Stir plane) (tickAndDrive now arrivals) := by
  have htick : Guided Kept (Stir plane) (tick now) := .of_moving (moving_stirs (tick_moving now))
  have hdrive : Guided Kept (Stir plane) (drive arrivals) := fun w hw =>
    guided_stirs (drive_follows arrivals) w hw.now.grounded
  exact guided_bind (guided_caught htick) fun _ => guided_bind (guided_caught hdrive) fun _ => .pure _

theorem handle_guided (request : ClientRequest) : Guided Kept (Stir plane) (handle request) := by
  cases request with
  | submit spec => exact submit_guided spec
  | submitService spec => exact submitService_guided _
  | scaleService id target => exact scaleService_guided id target
  | revoke lease => exact revokeLease_guided lease

theorem drainQueue_guided (passes : Nat) : Guided Kept (Stir plane) (drainQueue passes) := by
  induction passes with
  | zero => exact .pure ()
  | succ passes ih =>
    refine guided_bind (guided_caught admitOne_guided) fun result => ?_
    split
    · exact ih
    · exact .pure _

theorem maintain_guided (now : UInt64) : Guided Kept (Stir plane) (maintain now) := by
  have htick : Guided Kept (Stir plane) (tick now) := .of_moving (moving_stirs (tick_moving now))
  have hcollect : Guided Kept (Stir plane) collectCompletions := fun w hw =>
    guided_stirs collectCompletions_follows w hw.now.grounded
  have hself : Guided Kept (Stir plane) self := .of_moving self_moving
  refine guided_bind (guided_caught htick) fun _ => guided_bind (guided_caught hcollect) fun _ =>
    guided_bind hself fun s => guided_bind (drainQueue_guided _) fun _ => guided_bind hself fun s => ?_
  refine guided_bind (fun w _ => .single (.move (.inert _ _ _ _ _ _))) fun _ => ?_
  refine guided_bind (.forM kept_stirs fun machine _ => guided_bind (guided_caught
    (.of_moving (moving_stirs (markMachineUnhealthy_moving machine)))) fun _ => .pure _) fun _ => ?_
  refine guided_bind (.of_moving (moving_stirs probeAgents_moving)) fun _ => ?_
  refine guided_bind (fun w hw => queueRestarts_follows rfl hw.now.numbered) fun restarts => ?_
  refine guided_bind (admitFor_guided restarts) fun _ => ?_
  exact guided_bind (.of_moving (reconcileServiceGroups_stirs rfl)) fun members => admitFor_guided members

/-- Every event is a sequence of changes the plane may make. -/
theorem Event.stirs (event : Event) : Guided Kept (Stir plane) event.program := by
  cases event with
  | ask now arrivals => exact tickAndDrive_guided now arrivals
  | client now arrivals request =>
    exact guided_bind (guided_bind (tickAndDrive_guided now arrivals) fun _ => handle_guided request)
      fun _ => .pure _
  | maintain now => exact maintain_guided now
  | advance arrivals =>
    refine guided_bind (guided_caught fun w hw => ?_) fun _ => .pure _
    exact guided_stirs (drive_follows arrivals) w hw.now.grounded
  | dialIn description capabilities =>
    refine guided_bind (guided_caught fun w hw => ?_) fun _ => .pure _
    exact guided_stirs (registerAgentWithCapabilities_follows description capabilities) w hw.now.grounded
  | post tag reply => exact fun w _ => .single (.move (.inert _ _ _ _ _ _))
  | loseAgent machine => exact fun w _ => .single (.move (.inert _ _ _ _ _ _))

/-! The lease counter. -/

theorem Move.leaseKeys {own : Bool} (h : Move own w u) (hw : Grounded w) (id : LeaseId) :
    u.service.cluster.leases[id]? = none ↔ w.service.cluster.leases[id]? = none := by
  cases h with
  | commit hplain happly =>
    rw [service_commit]
    exact Cluster.leaseKeys_of_apply hw.wellFormed (Cluster.plain_of_unguarded hplain).2 happly id
  | hello _ happly =>
    rw [service_commit]
    exact Cluster.leaseKeys_of_apply hw.wellFormed rfl happly id
  | refuse happly =>
    obtain rfl := Cluster.Reachable.refused hw happly
    exact Iff.rfl
  | answerStart lease machine session reply =>
    refine answerStart_cases (w := w) (motive := fun u =>
      u.service.cluster.leases[id]? = none ↔ w.service.cluster.leases[id]? = none)
      lease machine session reply (fun _ => Iff.rfl) ?_ ?_
    · intro reason effects cluster happly
      rw [service_commit]
      exact Cluster.leaseKeys_of_apply hw.wellFormed rfl happly id
    · intro reason e left happly
      obtain rfl := Cluster.Reachable.refused hw happly
      exact Iff.rfl
  | call =>
    unfold World.call
    split
    · exact Iff.rfl
    · exact Iff.rfl
  | clock | persist | answer | pop | drain | report | recover | join | recovered | hold | rehold
  | activate | adopt | start | stop | await | status | endpoints | stray | closed | session | inert =>
    exact Iff.rfl

/-- A lease opened under a free id is in the table, and no other has come. -/
theorem leaseKeys_of_open {c c' : Cluster} {effects : List Effect} {id : LeaseId} (hc : c.Reachable)
    (hfree : c.leases[id]? = none)
    (h : Cluster.apply (.openLease id owner allocation parent expiresAt deadline priority) c =
      .ok effects c') : c'.leases[id]? ≠ none ∧
        ∀ other, c'.leases[other]? ≠ none → other = id ∨ c.leases[other]? ≠ none := by
  constructor
  · obtain ⟨next, hstep, rfl⟩ := Cluster.step_of_apply h
    cases hstep with
    | retry hretry =>
      cases hretry with
      | openLease _ hlease => rw [hfree] at hlease; cases hlease
    | enter _ _ hadmitted =>
      cases hadmitted
      simp
    | install _ hcase => cases hcase
    | annotate hcase => cases hcase
    | advance _ _ hcase => cases hcase
    | finish _ hcase => cases hcase
    | rebind _ hcase => cases hcase
    | restate hcase => cases hcase
  · intro other hother
    by_contra hboth
    simp only [not_or, not_not] at hboth
    obtain ⟨lease, hlease⟩ := Option.ne_none_iff_exists'.mp hother
    obtain ⟨hid, hadmitted⟩ := (Cluster.leases_of_apply hc.wellFormed h).made other lease hboth.2 hlease
    cases hadmitted
    exact hboth.1 hid.symm

/-- Every lease stands below the counter, which starts above zero. -/
structure Owned (cluster : Cluster) (state : ServiceState) : Prop where
  below : ∀ id : LeaseId, cluster.leases[id]? ≠ none → id.asU64 < state.nextLease
  positive : 0 < state.nextLease

theorem Stir.owned (h : Stir plane w u) (hlasts : ¬Exhausted w.trace) (hw : Kept w)
    (howned : Owned w.service.cluster w.service.state) : Owned u.service.cluster u.service.state := by
  cases h with
  | move hmove =>
    obtain ⟨next, hstate⟩ := Move.keeps_state hmove
    refine ⟨fun id hid => ?_, ?_⟩
    · rw [hstate]
      exact howned.below id (mt (Move.leaseKeys hmove hw.now.grounded id).mpr hid)
    · rw [hstate]
      exact howned.positive
  | opening hopen => cases hopen
  | grant hroom _ _ happly =>
    have hlt := lt_add_one (hroom.resolve_right hlasts)
    rw [service_commit]
    have hfree : w.service.cluster.leases[(⟨w.service.state.nextLease⟩ : LeaseId)]? = none := by
      by_contra hused
      exact UInt64.lt_irrefl _ (howned.below _ hused)
    refine ⟨fun id hid => ?_, UInt64.lt_trans howned.positive hlt⟩
    rcases (leaseKeys_of_open hw.now.grounded hfree happly).2 id hid with rfl | hbefore
    · exact hlt
    · exact UInt64.lt_trans (howned.below id hbefore) hlt
  | deny hroom _ _ happly =>
    obtain rfl := Cluster.Reachable.refused hw.now.grounded happly
    have hlt := lt_add_one (hroom.resolve_right hlasts)
    refine ⟨fun id hid => UInt64.lt_trans (howned.below id hid) hlt, ?_⟩
    exact UInt64.lt_trans howned.positive hlt
  | restore hrestore => cases hrestore
  | enqueue | enroll | bind | draw | tally | giveUp | restart | cancel | regroup | enlist =>
    exact ⟨howned.below, howned.positive⟩

end Archon.Control
