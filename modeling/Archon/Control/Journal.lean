import Archon.Control.Log
import Archon.Node.Replaying

/-! Crash recovery. The plane keeps a snapshot, replaced in one piece, and a journal of the
records after it; a crash may leave the old journal beside a new snapshot and a torn line at
the end. Booting on what is left brings back the cluster and the controller state that the
files stand for. -/
namespace Archon.Control
open Archon.Kernel Archon.Node Archon.Node.Service Fallible CommandLog

/-- The serialiser of records, and of the states that the sink compares. -/
structure Codec extends Serde where
  stateToVec : ServiceState → List UInt8

structure SnapshotEnvelope where
  version : UInt32
  sequence : UInt64
  cluster : Cluster
  state : ServiceState

/-- What outlives the process. -/
structure Files where
  snapshot : Option SnapshotEnvelope
  journal : CommandLog

inductive BootFault where
  | text (reason : String)
  | failed (error : Error)
  | panic

structure Plane where
  service : NodeService
  files : Files
  journalSequence : UInt64
  lastState : List UInt8
  compactedSequence : UInt64

/-- The command history and the replay flag are not written. -/
def stored (cluster : Cluster) : Cluster := { cluster with replaying := false, log := [] }

namespace Plane

/-- The record that the sink appends next. -/
def nextRecord (self : Plane) (command : Option Command) : JournalRecord :=
  ⟨self.journalSequence + 1, command, self.service.state⟩

/-- The durable sink. A state alone is written once; running out of sequence numbers ends
the process. -/
def sink (codec : Codec) (command : Option Command) (self : Plane) : Except Fault Plane :=
  let encodedState := codec.stateToVec self.service.state
  if command.isNone && encodedState = self.lastState then
    .ok self
  else if self.journalSequence = 18446744073709551615 then
    .error .panic
  else
    .ok { self with
      files := { self.files with
        journal := self.files.journal.appendRecord codec.toSerde (self.nextRecord command) }
      lastState := encodedState
      journalSequence := self.journalSequence + 1 }

def envelope (self : Plane) : SnapshotEnvelope :=
  ⟨2, self.journalSequence, stored self.service.cluster, self.service.state⟩

/-- The snapshot is written beside the old one and renamed over it. -/
def renameSnapshot (self : Plane) : Plane :=
  { self with files := { self.files with snapshot := some self.envelope } }

/-- Snapshot, then empty the journal and the command history. -/
def compact (self : Plane) : Plane :=
  let renamed := self.renameSnapshot
  { renamed with
    files := { renamed.files with journal := ⟨[]⟩ }
    service := { self.service with cluster := { self.service.cluster with log := [] } }
    compactedSequence := self.journalSequence }

end Plane

/-! Booting. -/

def unsupportedVersion (version : UInt32) : String := s!"unsupported snapshot version {version}"

def legacyAfterSequenced : String := "legacy command after sequenced controller state"

def legacyLineage : String :=
  "cannot recover legacy workload lineage: lease admission after a version-1 snapshot " ++
    "requires operator reconciliation"

/-- How far a boot has come, and the sequence of the last record it has taken up. -/
abbrev Progress := World × UInt64

def compactedAt (snapshot : Option SnapshotEnvelope) : UInt64 :=
  (snapshot.map SnapshotEnvelope.sequence).getD 0

def replayed (command : Command) (w : World) : Except BootFault World :=
  match replay [command] w with
  | .ok _ u => .ok u
  | .error (.err e) _ => .error (.failed e)
  | .error .panic _ => .error .panic

def replayedIfAny (command : Option Command) (w : World) : Except BootFault World :=
  match command with
  | some command => replayed command w
  | none => .ok w

def bootStart (snapshot : Option SnapshotEnvelope) : Except BootFault Progress :=
  match snapshot with
  | none => .ok (⟨.new, []⟩, 0)
  | some envelope => do
    refuseIf (envelope.version ≠ 1 ∧ envelope.version ≠ 2) (.text (unsupportedVersion envelope.version))
    return (after (restore envelope.cluster envelope.state) ⟨.new, []⟩, envelope.sequence)

/-- A snapshot of the second version includes all commands of a legacy log. -/
def bootLegacy (snapshot : Option SnapshotEnvelope) (progress : Progress) (command : Command) :
    Except BootFault Progress :=
  if snapshot.any fun envelope => envelope.version = 2 then
    .ok progress
  else do
    refuseIf (progress.2 ≠ 0) (.text legacyAfterSequenced)
    refuseIf (snapshot.isSome ∧ opensLease command) (.text legacyLineage)
    let w ← replayed command progress.1
    return (w, progress.2)

/-- A record that the snapshot includes is passed over. -/
def bootController (snapshot : Option SnapshotEnvelope) (progress : Progress) (record : JournalRecord) :
    Except BootFault Progress :=
  if record.sequence ≤ compactedAt snapshot then
    .ok progress
  else do
    refuseIf (progress.2 = 18446744073709551615) (.text "journal sequence exhausted")
    refuseIf (record.sequence ≠ progress.2 + 1) (.text "non-contiguous controller journal")
    let w ← replayedIfAny record.command progress.1
    return (after (restoreState record.state) w, record.sequence)

def bootRecord (snapshot : Option SnapshotEnvelope) (progress : Progress) :
    LogRecord → Except BootFault Progress
  | .legacy command => bootLegacy snapshot progress command
  | .controller record => bootController snapshot progress record

def bootRecords (snapshot : Option SnapshotEnvelope) (records : List LogRecord) :
    Except BootFault Progress := do
  let start ← bootStart snapshot
  records.foldlM (bootRecord snapshot) start

def journalRecords (codec : Codec) (journal : CommandLog) :
    Except BootFault (List LogRecord × CommandLog) :=
  match readRecords codec.toSerde journal with
  | .ok records repaired => .ok (records, repaired)
  | .error reason _ => .error (.text reason)

/-- Boot up to the registration of agents. -/
def boot (codec : Codec) (files : Files) : Except BootFault Plane := do
  let start ← bootStart files.snapshot
  let (records, journal) ← journalRecords codec files.journal
  let (w, sequence) ← records.foldlM (bootRecord files.snapshot) start
  return {
    service := { w.service with durableSink := true }
    files := { files with journal }
    journalSequence := sequence
    lastState := []
    compactedSequence := compactedAt files.snapshot }

/-! What can happen to a plane and its files. -/

/-- What the files stand for. -/
structure Saved where
  cluster : Cluster
  state : ServiceState

/-- What a crash may leave: the files as they are, or with a torn line behind the journal. -/
inductive Left (codec : Codec) (p : Plane) : Files → Prop where
  | whole : Left codec p p.files
  | torn (record : LogRecord) (hkeeps : Keeps codec.toSerde record) {part : List UInt8}
      (hpart : part <+: lineOf codec.toSerde record) :
      Left codec p { p.files with journal := ⟨p.files.journal.file ++ part⟩ }

/-- A snapshot as the plane writes it. -/
def Files.AsStored (files : Files) : Prop :=
  ∀ envelope, files.snapshot = some envelope → envelope.cluster = stored envelope.cluster

/-- A plane in any number of lives, with what its files stand for. Between the records the
controller may change as it likes, but the cluster changes by its clock alone. -/
inductive Running (codec : Codec) : Plane → Saved → Prop where
  | opened {files : Files} {records : List LogRecord} {tail : List UInt8}
      (hkeeps : ∀ record ∈ records, Keeps codec.toSerde record) (htail : newline ∉ tail)
      (hfile : files.journal = ⟨written codec.toSerde records ++ tail⟩) (hstored : files.AsStored)
      (hboot : boot codec files = .ok p) : Running codec p ⟨p.service.cluster, p.service.state⟩
  | idle (h : Running codec p saved) (service : NodeService)
      (hcluster : p.service.cluster.Twin service.cluster) : Running codec { p with service } saved
  | commit (h : Running codec p saved)
      (happly : Cluster.apply command p.service.cluster = .ok effects cluster)
      (hkeeps : Keeps codec.toSerde (.controller (p.nextRecord (some command))))
      (hsink : Plane.sink codec (some command) { p with service := { p.service with cluster } } = .ok q) :
      Running codec q ⟨cluster, p.service.state⟩
  | accept (h : Running codec p saved) (hnew : codec.stateToVec p.service.state ≠ p.lastState)
      (hkeeps : Keeps codec.toSerde (.controller (p.nextRecord none)))
      (hsink : p.sink codec none = .ok q) : Running codec q ⟨p.service.cluster, p.service.state⟩
  | renamed (h : Running codec p saved) :
      Running codec p.renameSnapshot ⟨p.service.cluster, p.service.state⟩
  | compacted (h : Running codec p saved) :
      Running codec p.compact ⟨p.service.cluster, p.service.state⟩
  | rebooted (h : Running codec p saved) (hleft : Left codec p files) (hboot : boot codec files = .ok q) :
      Running codec q saved

section Recovery
variable {codec : Codec} {files : Files} {p q : Plane} {saved : Saved} {snapshot : Option SnapshotEnvelope}
  {records : List LogRecord} {progress next : Progress}

/-! What a boot does with the records. -/

theorem replayed_ok {command : Command} {w u : World} :
    replayed command w = .ok u ↔ replay [command] w = .ok () u := by
  unfold replayed
  cases replay [command] w with
  | ok a t => simp
  | error fault t => cases fault <;> simp

/-- A controller rebuilt so far: it has met no agent, and its cluster is a graph of resources
without observations among the attributes. -/
structure Rebuilt (w : World) (cluster : Cluster) (state : ServiceState) : Prop where
  service : w.service = .fresh cluster state
  settled : cluster.replaying = false
  healthless : cluster.graph.Healthless

theorem rebuilt_new : Rebuilt ⟨.new, []⟩ .new .new := by
  refine ⟨rfl, rfl, fun id node hnode => ?_⟩
  cases hnode

theorem Rebuilt.restored {w : World} {cluster : Cluster} {before : ServiceState}
    (h : Rebuilt w cluster before) (state : ServiceState) :
    Rebuilt (after (restoreState state) w) cluster state := by
  refine ⟨?_, h.settled, h.healthless⟩
  change ({ w.service with
    state, providerActivations := ∅, executionStarted := ∅, executionStopped := ∅
    heldEffects := ∅ } : NodeService) = _
  rw [h.service]
  rfl

theorem rebuilt_restore (cluster : Cluster) (state : ServiceState) :
    Rebuilt (after (restore (stored cluster) state) ⟨.new, []⟩)
      (stored cluster).migrateLegacyObservations state :=
  ⟨rfl, rfl, Graph.migrated_healthless cluster.graph⟩

theorem Rebuilt.replayed {command : Command} {w u : World} {cluster : Cluster} {state : ServiceState}
    (h : Rebuilt w cluster state) (hrun : replayed command w = .ok u) :
    ∃ cluster state, Rebuilt u cluster state := by
  obtain ⟨again, accepted, next, happly, hservice⟩ := replay_ok h.service (replayed_ok.mp hrun)
  have hgraph : (cluster.setReplaying true).graph.Healthless := h.healthless
  have haccepted := Cluster.healthless_apply happly hgraph
  exact ⟨_, _, hservice, rfl, haccepted⟩

/-- What a boot does with a record: it passes over it, replays a legacy command, or takes up
the next record of the journal. -/
inductive Booted (snapshot : Option SnapshotEnvelope) (progress : Progress) :
    LogRecord → Progress → Prop where
  | passed {record : LogRecord}
      (hpast : ∀ journaled, record = .controller journaled → journaled.sequence ≤ compactedAt snapshot) :
      Booted snapshot progress record progress
  | legacy {command : Command} {w : World} (hrun : replayed command progress.1 = .ok w) :
      Booted snapshot progress (.legacy command) (w, progress.2)
  | accepted {record : JournalRecord} {w : World} (hlast : progress.2 ≠ 18446744073709551615)
      (hnext : record.sequence = progress.2 + 1)
      (hrun : replayedIfAny record.command progress.1 = .ok w) :
      Booted snapshot progress (.controller record) (after (restoreState record.state) w, record.sequence)

theorem booted_of_bootRecord {record : LogRecord} (h : bootRecord snapshot progress record = .ok next) :
    Booted snapshot progress record next := by
  cases record with
  | legacy command =>
    simp only [bootRecord, bootLegacy, check_ite_ok, check_bind_ok, check_pure_ok] at h
    rcases h with ⟨-, hok⟩ | ⟨-, _, -, _, -, w, hrun, rfl⟩
    · cases hok
      exact .passed fun _ heq => by cases heq
    · exact .legacy hrun
  | controller record =>
    simp only [bootRecord, bootController, check_ite_ok, check_bind_ok, check_pure_ok, refuseIf_ok,
      ne_eq, not_not] at h
    rcases h with ⟨hpast, hok⟩ | ⟨-, _, hlast, _, hnext, w, hrun, rfl⟩
    · cases hok
      refine .passed fun _ heq => ?_
      cases heq
      exact hpast
    · exact .accepted hlast hnext hrun

theorem Booted.rebuilt {record : LogRecord} (h : Booted snapshot progress record next)
    (hprogress : ∃ cluster state, Rebuilt progress.1 cluster state) :
    ∃ cluster state, Rebuilt next.1 cluster state := by
  obtain ⟨cluster, state, hrebuilt⟩ := hprogress
  cases h with
  | passed => exact ⟨cluster, state, hrebuilt⟩
  | legacy hrun => exact hrebuilt.replayed hrun
  | @accepted record w _ _ hrun =>
    unfold replayedIfAny at hrun
    split at hrun
    · obtain ⟨after, _, hafter⟩ := hrebuilt.replayed hrun
      exact ⟨after, _, hafter.restored record.state⟩
    · cases hrun
      exact ⟨cluster, _, hrebuilt.restored record.state⟩

theorem bootStart_rebuilt (hstored : ∀ envelope, snapshot = some envelope →
      envelope.cluster = stored envelope.cluster) (h : bootStart snapshot = .ok next) :
    ∃ cluster state, Rebuilt next.1 cluster state := by
  unfold bootStart at h
  cases snapshot with
  | none =>
    cases h
    exact ⟨_, _, rebuilt_new⟩
  | some envelope =>
    simp only [check_bind_ok, check_pure_ok] at h
    obtain ⟨_, -, rfl⟩ := h
    rw [hstored envelope rfl]
    exact ⟨_, _, rebuilt_restore envelope.cluster envelope.state⟩

theorem Booted.reaches {record : LogRecord} (h : Booted snapshot progress record next)
    (hstart : compactedAt snapshot ≤ progress.2) : progress.2 ≤ next.2 ∧
      ∀ journaled, record = .controller journaled → journaled.sequence ≤ next.2 := by
  cases h with
  | passed hpast =>
    exact ⟨UInt64.le_refl _, fun journaled heq => UInt64.le_trans (hpast journaled heq) hstart⟩
  | legacy => exact ⟨UInt64.le_refl _, fun _ heq => by cases heq⟩
  | @accepted record _ hlast hnext =>
    refine ⟨?_, fun journaled heq => ?_⟩
    · change progress.2 ≤ record.sequence
      rw [hnext]
      exact UInt64.le_of_lt (lt_add_one hlast)
    · cases heq
      exact UInt64.le_refl _

theorem bootAll_reaches (h : records.foldlM (bootRecord snapshot) progress = .ok next)
    (hstart : compactedAt snapshot ≤ progress.2) : progress.2 ≤ next.2 ∧
      ∀ journaled, .controller journaled ∈ records → journaled.sequence ≤ next.2 := by
  induction records generalizing progress with
  | nil =>
    cases h
    exact ⟨UInt64.le_refl _, fun _ hmem => by cases hmem⟩
  | cons record rest ih =>
    rw [List.foldlM_cons, check_bind_ok] at h
    obtain ⟨middle, hfirst, hrest⟩ := h
    obtain ⟨hle, hrecord⟩ := (booted_of_bootRecord hfirst).reaches hstart
    obtain ⟨hle', hothers⟩ := ih hrest (UInt64.le_trans hstart hle)
    refine ⟨UInt64.le_trans hle hle', fun journaled hmem => ?_⟩
    rcases List.mem_cons.mp hmem with heq | hmem
    · exact UInt64.le_trans (hrecord journaled heq.symm) hle'
    · exact hothers journaled hmem

/-- A snapshot of the second version passes over every record that it includes. -/
theorem bootAll_passes {envelope : SnapshotEnvelope} (hversion : envelope.version = 2)
    (hpast : ∀ journaled, .controller journaled ∈ records → journaled.sequence ≤ envelope.sequence) :
    records.foldlM (bootRecord (some envelope)) progress = .ok progress := by
  induction records with
  | nil => rfl
  | cons record rest ih =>
    rw [List.foldlM_cons, check_bind_ok]
    refine ⟨progress, ?_, ih fun journaled hmem => hpast journaled (List.mem_cons_of_mem _ hmem)⟩
    cases record with
    | legacy command => exact if_pos (by simp [hversion])
    | controller record => exact if_pos (hpast record List.mem_cons_self)

theorem compactedAt_start (h : bootStart snapshot = .ok next) : next.2 = compactedAt snapshot := by
  unfold bootStart at h
  cases snapshot with
  | none =>
    cases h
    rfl
  | some envelope =>
    simp only [check_bind_ok, check_pure_ok] at h
    obtain ⟨_, -, rfl⟩ := h
    rfl

theorem bootRecords_reaches (h : bootRecords snapshot records = .ok next) :
    compactedAt snapshot ≤ next.2 ∧
      ∀ journaled, .controller journaled ∈ records → journaled.sequence ≤ next.2 := by
  simp only [bootRecords, check_bind_ok] at h
  obtain ⟨start, hstart, hall⟩ := h
  have hat := compactedAt_start hstart
  rw [← hat]
  exact bootAll_reaches hall (by rw [hat]; exact UInt64.le_refl _)

theorem bootRecords_append {record : LogRecord} (h : bootRecords snapshot records = .ok progress) :
    bootRecords snapshot (records ++ [record]) = bootRecord snapshot progress record := by
  simp only [bootRecords, check_bind_ok] at h
  obtain ⟨start, hstart, hall⟩ := h
  have hrest : (records ++ [record]).foldlM (bootRecord snapshot) start =
      bootRecord snapshot progress record := by
    rw [List.foldlM_append, hall]
    exact bind_pure (bootRecord snapshot progress record)
  simp only [bootRecords, hstart]
  exact hrest

theorem bootController_next {record : JournalRecord} {w : World} {sequence : UInt64}
    (hstart : compactedAt snapshot ≤ sequence) (hlast : sequence ≠ 18446744073709551615)
    (hnext : record.sequence = sequence + 1) {u : World} (hrun : replayedIfAny record.command w = .ok u) :
    bootController snapshot (w, sequence) record =
      .ok (after (restoreState record.state) u, record.sequence) := by
  have hlt := lt_add_one hlast
  have hpast : ¬record.sequence ≤ compactedAt snapshot := by
    rw [hnext]
    exact fun hle => UInt64.lt_irrefl _ (UInt64.lt_of_lt_of_le hlt (UInt64.le_trans hle hstart))
  rw [bootController, if_neg hpast]
  simp only [check_bind_ok, refuseIf_ok, check_pure_ok]
  exact ⟨(), hlast, (), by simpa using hnext, u, hrun, rfl⟩

/-! The files of a plane. -/

/-- The plane that a boot makes of some records. -/
def opening (files : Files) (records : List LogRecord) (progress : Progress) (serde : Serde) : Plane where
  service := { progress.1.service with durableSink := true }
  files := { files with journal := ⟨written serde records⟩ }
  journalSequence := progress.2
  lastState := []
  compactedSequence := compactedAt files.snapshot

theorem boot_eq {tail : List UInt8} (hkeeps : ∀ record ∈ records, Keeps codec.toSerde record)
    (htail : newline ∉ tail) (hfile : files.journal = ⟨written codec.toSerde records ++ tail⟩) :
    boot codec files = (bootRecords files.snapshot records).map fun progress =>
      opening files records progress codec.toSerde := by
  have hread : journalRecords codec files.journal =
      .ok (records, ⟨written codec.toSerde records⟩) := by
    rw [journalRecords, hfile, readRecords_written hkeeps htail]
  unfold boot bootRecords
  rw [hread]
  cases bootStart files.snapshot with
  | error fault => rfl
  | ok start =>
    change (records.foldlM (bootRecord files.snapshot) start >>= _) =
      Except.map _ (records.foldlM (bootRecord files.snapshot) start)
    cases records.foldlM (bootRecord files.snapshot) start with
    | error fault => rfl
    | ok progress => rfl

theorem appendRecord_written (record : JournalRecord) :
    (CommandLog.mk (written codec.toSerde records)).appendRecord codec.toSerde record =
      ⟨written codec.toSerde (records ++ [.controller record])⟩ := by
  have happended := @appended_file codec.toSerde [.controller record] ⟨written codec.toSerde records⟩
  rw [← written_append] at happended
  exact congrArg CommandLog.mk happended

/-- The files bring back what they stand for: the cluster but for its clock and history, and the
controller state. -/
structure Recovers (codec : Codec) (p : Plane) (saved : Saved) : Prop where
  files : ∃ records w cluster, (∀ record ∈ records, Keeps codec.toSerde record) ∧
    p.files.journal = ⟨written codec.toSerde records⟩ ∧
    bootRecords p.files.snapshot records = .ok (w, p.journalSequence) ∧
    Rebuilt w cluster saved.state ∧ saved.cluster.Twin cluster
  live : saved.cluster.Twin p.service.cluster
  healthless : p.service.cluster.graph.Healthless

theorem healthless_twin {c d : Cluster} (h : c.Twin d) (hc : c.graph.Healthless) : d.graph.Healthless := by
  rw [h]
  exact hc

namespace Recovers

theorem opened {tail : List UInt8} (hkeeps : ∀ record ∈ records, Keeps codec.toSerde record)
    (htail : newline ∉ tail) (hfile : files.journal = ⟨written codec.toSerde records ++ tail⟩)
    (hstored : files.AsStored) (hboot : boot codec files = .ok p) :
    Recovers codec p ⟨p.service.cluster, p.service.state⟩ := by
  rw [boot_eq hkeeps htail hfile] at hboot
  cases hrecords : bootRecords files.snapshot records with
  | error fault =>
    rw [hrecords] at hboot
    cases hboot
  | ok progress =>
    rw [hrecords] at hboot
    cases hboot
    have hall := hrecords
    simp only [bootRecords, check_bind_ok] at hall
    obtain ⟨start, hstart, hall⟩ := hall
    obtain ⟨cluster, state, hrebuilt⟩ := @foldlM_invariant _ _ _ _
      (fun progress : Progress => ∃ cluster state, Rebuilt progress.1 cluster state)
      (fun _ _ _ hrecord hbefore => (booted_of_bootRecord hrecord).rebuilt hbefore) _ _ _ hall
      (bootStart_rebuilt hstored hstart)
    have hcluster : (opening files records progress codec.toSerde).service.cluster = cluster := by
      simp only [opening, hrebuilt.service]
      rfl
    have hstate : (opening files records progress codec.toSerde).service.state = state := by
      simp only [opening, hrebuilt.service]
      rfl
    rw [hcluster, hstate]
    refine ⟨⟨records, progress.1, cluster, hkeeps, rfl, hrecords, hrebuilt, .refl _⟩, ?_, ?_⟩
    · rw [hcluster]
      exact .refl _
    · rw [hcluster]
      exact hrebuilt.healthless

theorem idle (h : Recovers codec p saved) (service : NodeService)
    (hcluster : p.service.cluster.Twin service.cluster) : Recovers codec { p with service } saved where
  files := h.files
  live := h.live.trans hcluster
  healthless := healthless_twin hcluster h.healthless

theorem appended (h : Recovers codec p saved) {command : Option Command} {cluster : Cluster}
    (hlast : p.journalSequence ≠ 18446744073709551615)
    (hkeeps : Keeps codec.toSerde (.controller (p.nextRecord command))) (lastState : List UInt8)
    (hreplay : ∀ w before, Rebuilt w before saved.state → p.service.cluster.Twin before →
      ∃ u after state, replayedIfAny command w = .ok u ∧ Rebuilt u after state ∧ cluster.Twin after)
    (hhealthless : cluster.graph.Healthless) :
    Recovers codec { p with
      service := { p.service with cluster }
      files := { p.files with
        journal := p.files.journal.appendRecord codec.toSerde (p.nextRecord command) }
      lastState
      journalSequence := p.journalSequence + 1 } ⟨cluster, p.service.state⟩ := by
  obtain ⟨records, w, before, hrecordsKeep, hjournal, hrecords, hrebuilt, htwin⟩ := h.files
  obtain ⟨u, after, state, hrun, hafter, hcluster⟩ := hreplay w before hrebuilt (h.live.symm.trans htwin)
  have hnext := @bootController_next _ (p.nextRecord command) w _ (bootRecords_reaches hrecords).1 hlast rfl
    u hrun
  refine ⟨⟨records ++ [.controller (p.nextRecord command)], _, after, ?_, ?_, ?_,
    hafter.restored p.service.state, hcluster⟩, .refl _, hhealthless⟩
  · intro record hmem
    rcases List.mem_append.mp hmem with hmem | hmem
    · exact hrecordsKeep record hmem
    · rw [List.mem_singleton.mp hmem]
      exact hkeeps
  · simp only [hjournal]
    exact appendRecord_written (p.nextRecord command)
  · rw [bootRecords_append hrecords]
    exact hnext

/-- The snapshot of a plane brings the plane back. -/
theorem envelope_rebuilt (h : p.service.cluster.graph.Healthless) : ∃ w cluster,
    bootStart (some p.envelope) = .ok (w, p.journalSequence) ∧ Rebuilt w cluster p.service.state ∧
      p.service.cluster.Twin cluster := by
  have hmigrated : (stored p.service.cluster).migrateLegacyObservations = stored p.service.cluster :=
    Cluster.migrate_of_healthless h
  have hrebuilt := rebuilt_restore p.service.cluster p.service.state
  rw [hmigrated] at hrebuilt
  exact ⟨_, _, rfl, hrebuilt, rfl⟩

theorem renamed (h : Recovers codec p saved) :
    Recovers codec p.renameSnapshot ⟨p.service.cluster, p.service.state⟩ := by
  obtain ⟨records, _, _, hkeeps, hjournal, hrecords, -⟩ := h.files
  obtain ⟨w, cluster, hstart, hrebuilt, htwin⟩ := envelope_rebuilt h.healthless
  refine ⟨⟨records, w, cluster, hkeeps, hjournal, ?_, hrebuilt, htwin⟩, .refl _, h.healthless⟩
  simp only [bootRecords, check_bind_ok]
  exact ⟨_, hstart, bootAll_passes rfl (bootRecords_reaches hrecords).2⟩

theorem compacted (h : Recovers codec p saved) :
    Recovers codec p.compact ⟨p.service.cluster, p.service.state⟩ := by
  obtain ⟨w, cluster, hstart, hrebuilt, htwin⟩ := envelope_rebuilt h.healthless
  refine ⟨⟨[], w, cluster, by simp, rfl, ?_, hrebuilt, htwin⟩, rfl, h.healthless⟩
  simp only [bootRecords, check_bind_ok]
  exact ⟨_, hstart, rfl⟩

/-- Whatever a crash has left, the boot finds the records of the plane and cuts off a torn line. -/
theorem boot (h : Recovers codec p saved) (hleft : Left codec p files) : ∃ q cluster,
    Control.boot codec files = .ok q ∧
      q.service = { NodeService.fresh cluster saved.state with durableSink := true } ∧
      p.service.cluster.Twin cluster ∧ cluster.replaying = false ∧ q.files = p.files ∧
      q.journalSequence = p.journalSequence := by
  obtain ⟨records, w, cluster, hkeeps, hjournal, hrecords, hrebuilt, htwin⟩ := h.files
  have hfile : ∃ tail, newline ∉ tail ∧ files.snapshot = p.files.snapshot ∧
      files.journal = ⟨written codec.toSerde records ++ tail⟩ := by
    cases hleft with
    | whole => exact ⟨[], by simp, rfl, by rw [hjournal, List.append_nil]⟩
    | torn record hrecord hpart =>
      exact ⟨_, fun hmem => hrecord.oneLine (hpart.subset hmem), rfl, by rw [hjournal]⟩
  obtain ⟨tail, htail, hsnapshot, hfile⟩ := hfile
  refine ⟨opening files records (w, p.journalSequence) codec.toSerde, cluster, ?_, ?_,
    h.live.symm.trans htwin, hrebuilt.settled, ?_, rfl⟩
  · rw [boot_eq hkeeps htail hfile, hsnapshot, hrecords]
    rfl
  · simp only [opening, hrebuilt.service]
  · simp only [opening]
    rw [hsnapshot, ← hjournal]

theorem rebooted (h : Recovers codec p saved) (hleft : Left codec p files)
    (hboot : Control.boot codec files = .ok q) : Recovers codec q saved := by
  obtain ⟨again, cluster, hagain, hservice, htwin, hsettled, hfiles, hsequence⟩ := h.boot hleft
  rw [hboot] at hagain
  cases hagain
  have hlive : q.service.cluster = cluster := by
    rw [hservice]
    rfl
  have hfound := h.files
  rw [← hfiles, ← hsequence] at hfound
  refine ⟨hfound, ?_, ?_⟩
  · rw [hlive]
    exact h.live.trans htwin
  · rw [hlive]
    exact healthless_twin htwin h.healthless

end Recovers

theorem sink_ok {command : Option Command}
    (hnew : command.isSome ∨ codec.stateToVec p.service.state ≠ p.lastState)
    (h : p.sink codec command = .ok q) : p.journalSequence ≠ 18446744073709551615 ∧ q = { p with
      files := { p.files with
        journal := p.files.journal.appendRecord codec.toSerde (p.nextRecord command) }
      lastState := codec.stateToVec p.service.state
      journalSequence := p.journalSequence + 1 } := by
  have hwrites : ¬(command.isNone && codec.stateToVec p.service.state = p.lastState) := by
    cases command with
    | none => simpa using hnew
    | some command => simp
  unfold Plane.sink at h
  dsimp only at h
  rw [if_neg hwrites] at h
  split at h
  · cases h
  · rename_i hlast
    cases h
    exact ⟨hlast, rfl⟩

theorem Running.recovers (h : Running codec p saved) : Recovers codec p saved := by
  induction h with
  | opened hkeeps htail hfile hstored hboot => exact .opened hkeeps htail hfile hstored hboot
  | idle _ service hcluster ih => exact ih.idle service hcluster
  | @commit p saved command effects cluster q _ happly hkeeps hsink ih =>
    obtain ⟨hlast, rfl⟩ := sink_ok (.inl rfl) hsink
    refine ih.appended hlast hkeeps _ (fun w before hrebuilt htwin => ?_)
      (Cluster.healthless_apply happly ih.healthless)
    obtain ⟨u, after, next, hrun, hservice, hafter, hsettled⟩ :=
      replay_run hrebuilt.service htwin happly
    have hhealthless := healthless_twin hafter (Cluster.healthless_apply happly ih.healthless)
    exact ⟨u, after, next, replayed_ok.mpr hrun, ⟨hservice, hsettled, hhealthless⟩, hafter⟩
  | accept _ hnew hkeeps hsink ih =>
    obtain ⟨hlast, rfl⟩ := sink_ok (.inr hnew) hsink
    exact ih.appended hlast hkeeps _ (fun w before hrebuilt htwin =>
      ⟨w, before, _, rfl, hrebuilt, htwin⟩) ih.healthless
  | renamed _ ih => exact ih.renamed
  | compacted _ ih => exact ih.compacted
  | rebooted _ hleft hboot ih => exact ih.rebooted hleft hboot

/-- Whenever the plane goes down, in whichever of its lives, booting on what is left brings back the
cluster it had but for the clock, the controller state its files stand for, and a journal without a
torn line that goes on with the next sequence number. -/
theorem crash_recovers_saved (h : Running codec p saved) (hleft : Left codec p files) : ∃ q cluster,
    boot codec files = .ok q ∧
      q.service = { NodeService.fresh cluster saved.state with durableSink := true } ∧
      p.service.cluster.Twin cluster ∧ cluster.replaying = false ∧ q.files = p.files ∧
      q.journalSequence = p.journalSequence :=
  h.recovers.boot hleft

end Recovery

namespace Sample

def stateText : String :=
  "\x7b\"requests\":\x7b\x7d,\"queue\":[],\"queued_workloads\":\x7b\x7d,\"restart_handled\":[]," ++
    "\"restart_counts\":\x7b\x7d,\"restart_last_at\":\x7b\x7d,\"restart_root\":\x7b\x7d,\"service_groups\":\x7b\x7d," ++
    "\"group_members\":\x7b\x7d,\"member_groups\":\x7b\x7d,\"group_restarts\":\x7b\x7d," ++
    "\"group_last_restart\":\x7b\x7d,\"member_pins\":\x7b\x7d,\"next_lease\":1,\"next_request_id\":1," ++
    "\"next_session\":1,\"next_binding\":1\x7d"

def bytesOf (text : String) : List UInt8 := text.toUTF8.data.toList

/-- The bytes of the first two records of a controller that desires nothing. -/
def firstLine : List UInt8 := bytesOf
  ("\x7b\"sequence\":1,\"command\":\x7b\"ApplyGraph\":\x7b\"nodes\":[],\"edges\":[]\x7d\x7d,\"state\":" ++ stateText ++ "\x7d")
def secondLine : List UInt8 := bytesOf
  ("\x7b\"sequence\":2,\"command\":null,\"state\":" ++ stateText ++ "\x7d")

def firstRecord : JournalRecord := ⟨1, some (.applyGraph [] []), .new⟩
def secondRecord : JournalRecord := ⟨2, none, .new⟩

/-- A serialiser of these two records and their state. -/
def codec : Codec where
  journalToVec record := if record.sequence = 1 then firstLine else secondLine
  commandToVec _ := []
  journalFromSlice line :=
    if line = firstLine then .ok firstRecord
    else if line = secondLine then .ok secondRecord
    else .error "expected value"
  commandFromSlice _ := .error "expected value"
  stateToVec _ := bytesOf stateText

def empty : Files := ⟨none, ⟨[]⟩⟩

theorem firstKeeps : Keeps codec.toSerde (.controller firstRecord) := by
  have hread : codec.journalFromSlice firstLine = .ok firstRecord := by simp [codec]
  refine ⟨by decide +kernel, by decide +kernel, fun lineNo => ?_⟩
  change readLine codec.toSerde lineNo firstLine = _
  rw [readLine, hread]

theorem secondKeeps : Keeps codec.toSerde (.controller secondRecord) := by
  have hne : secondLine ≠ firstLine := by decide +kernel
  have hread : codec.journalFromSlice secondLine = .ok secondRecord := by simp [codec, hne]
  refine ⟨by decide +kernel, by decide +kernel, fun lineNo => ?_⟩
  change readLine codec.toSerde lineNo secondLine = _
  rw [readLine, hread]

def begun : Plane := opening empty [] (⟨.new, []⟩, 0) codec.toSerde

def grown : Cluster := after (Cluster.apply (.applyGraph [] [])) .new

theorem applied : ∃ effects, Cluster.apply (.applyGraph [] []) .new = .ok effects grown := ⟨_, rfl⟩

/-- The plane when it has written the first record. -/
def afterFirst : Plane :=
  { begun with
    service := { begun.service with cluster := grown }
    files := { begun.files with journal := begun.files.journal.appendRecord codec.toSerde firstRecord }
    lastState := codec.stateToVec begun.service.state
    journalSequence := begun.journalSequence + 1 }

theorem running : Running codec afterFirst.renameSnapshot ⟨grown, .new⟩ := by
  have hboot : boot codec empty = .ok begun := rfl
  have hopened : Running codec begun ⟨begun.service.cluster, begun.service.state⟩ :=
    @Running.opened codec begun empty [] [] (by simp) (by simp) rfl (fun _ hsome => by cases hsome) hboot
  obtain ⟨effects, happly⟩ := applied
  have hsink : Plane.sink codec (some (.applyGraph [] []))
      { begun with service := { begun.service with cluster := grown } } = .ok afterFirst := by
    unfold Plane.sink
    have hrecord : Plane.nextRecord { begun with service := { begun.service with cluster := grown } }
        (some (.applyGraph [] [])) = firstRecord := rfl
    rw [if_neg (by simp), if_neg (by decide), hrecord]
    rfl
  have hcommitted : Running codec afterFirst ⟨grown, .new⟩ :=
    @Running.commit codec begun _ (.applyGraph [] []) effects grown afterFirst hopened happly firstKeeps hsink
  exact .renamed hcommitted

end Sample

/-- A crash in the second record, after a snapshot that includes the first. -/
theorem sample_recovers : ∃ q cluster,
    boot Sample.codec { Sample.afterFirst.renameSnapshot.files with
        journal := ⟨Sample.afterFirst.files.journal.file ++ Sample.secondLine.take 20⟩ } = .ok q ∧
      q.service = { NodeService.fresh cluster .new with durableSink := true } ∧
      Sample.grown.Twin cluster ∧ cluster.replaying = false ∧
      q.files = Sample.afterFirst.renameSnapshot.files ∧ q.journalSequence = 1 :=
  crash_recovers_saved Sample.running
    (.torn (.controller Sample.secondRecord) Sample.secondKeeps (List.take_prefix 20 Sample.secondLine))

end Archon.Control
