import Archon.Lib.Lines
import Archon.Node.Service

/-! The controller's journal: one record per line, appended in order. Reading it
back removes a torn last line, so that the next append starts a line of its own;
a corrupt line anywhere else is an error and leaves the file alone. How records
are written as bytes and read back is left to the serialiser. -/
namespace Archon.Control
open Archon.Kernel Archon.Node Fallible

/-- A command with the desired state it belongs to, or that state alone. -/
structure JournalRecord where
  sequence : UInt64
  command : Option Command
  state : ServiceState

inductive LogRecord where
  | controller (record : JournalRecord)
  | legacy (command : Command)

/-- The serialiser of both kinds of record. -/
structure Serde where
  journalToVec : JournalRecord → List UInt8
  commandToVec : Command → List UInt8
  journalFromSlice : List UInt8 → Except String JournalRecord
  commandFromSlice : List UInt8 → Except String Command

def newline : UInt8 := 10

/-- Space, tab, line feed, form feed and carriage return. -/
def isAsciiWhitespace (byte : UInt8) : Bool :=
  byte = 32 || byte = 9 || byte = 10 || byte = 12 || byte = 13

structure CommandLog where
  file : List UInt8

namespace CommandLog

/-! Appending. -/

def appendValue (line : List UInt8) (self : CommandLog) : CommandLog :=
  ⟨self.file ++ (line ++ [newline])⟩

def append (serde : Serde) (command : Command) (self : CommandLog) : CommandLog :=
  self.appendValue (serde.commandToVec command)

def appendRecord (serde : Serde) (record : JournalRecord) (self : CommandLog) : CommandLog :=
  self.appendValue (serde.journalToVec record)

/-- Append a record of either kind. -/
def appendLog (serde : Serde) (self : CommandLog) : LogRecord → CommandLog
  | .controller record => self.appendRecord serde record
  | .legacy command => self.append serde command

/-! Reading. -/

/-- A line is a controller record, or else a command of a legacy log. -/
def readLine (serde : Serde) (lineNo : Nat) (line : List UInt8) : Except String LogRecord :=
  match serde.journalFromSlice line with
  | .ok record => .ok (.controller record)
  | .error journalError =>
    match serde.commandFromSlice line with
    | .ok command => .ok (.legacy command)
    | .error legacyError => .error s!"corrupt log entry {lineNo}: {journalError}; {legacyError}"

/-- Read the records of the remaining bytes; `line` holds the bytes since
`lineStart`. The result says where the last line that was not closed starts. -/
def scan (serde : Serde) (lineNo lineStart : Nat) (line : List UInt8) :
    List UInt8 → Except String (List LogRecord × Nat)
  | [] => return ([], lineStart)
  | byte :: rest =>
    if byte = newline then do
      let record ← if line.all isAsciiWhitespace then pure []
        else do
          let record ← readLine serde lineNo line
          pure [record]
      let (records, kept) ← scan serde (lineNo + 1) (lineStart + line.length + 1) [] rest
      return (record ++ records, kept)
    else
      scan serde lineNo lineStart (line ++ [byte]) rest

/-- The records in order; a torn tail is cut off. -/
def readRecords (serde : Serde) : EStateM String CommandLog (List LogRecord) := do
  let self ← get
  let (records, kept) ← attempt (scan serde 1 0 [] self.file)
  if kept < self.file.length then
    set (CommandLog.mk (self.file.take kept))
  return records

/-! What the serialiser is relied on for. -/

/-- The line of a record. -/
def lineOf (serde : Serde) : LogRecord → List UInt8
  | .controller record => serde.journalToVec record
  | .legacy command => serde.commandToVec command

/-- A record is written as one line that is not blank and reads back as itself. -/
structure Keeps (serde : Serde) (record : LogRecord) : Prop where
  oneLine : newline ∉ lineOf serde record
  notBlank : ¬(lineOf serde record).all isAsciiWhitespace
  readsBack : ∀ lineNo, readLine serde lineNo (lineOf serde record) = .ok record

/-- The file that some appended records make. -/
def written (serde : Serde) (records : List LogRecord) : List UInt8 :=
  Lines.joined newline (records.map (lineOf serde))

section Read
variable {serde : Serde} {records later : List LogRecord} {record : LogRecord}

theorem appendLog_file (self : CommandLog) (record : LogRecord) :
    (self.appendLog serde record).file = self.file ++ (lineOf serde record ++ [newline]) := by
  cases record <;> rfl

theorem appended_file (self : CommandLog) :
    (records.foldl (appendLog serde) self).file = self.file ++ written serde records := by
  induction records generalizing self with
  | nil => simp [written]
  | cons record records ih =>
    rw [List.foldl_cons, ih, appendLog_file, written, written, List.map_cons, Lines.joined_cons]
    simp

theorem scan_line {lineNo lineStart : Nat} {line bytes rest : List UInt8} (h : newline ∉ bytes) :
    scan serde lineNo lineStart line (bytes ++ rest) =
      scan serde lineNo lineStart (line ++ bytes) rest := by
  induction bytes generalizing line with
  | nil => simp
  | cons byte bytes ih =>
    simp only [List.mem_cons, not_or] at h
    rw [List.cons_append, scan, if_neg (Ne.symm h.1), ih h.2, List.append_assoc]
    rfl

/-- Whole lines are read as their records, and the tail is found behind them. -/
theorem scan_written {lineNo lineStart : Nat} {tail : List UInt8}
    (hkeeps : ∀ record ∈ records, Keeps serde record) (htail : newline ∉ tail) :
    scan serde lineNo lineStart [] (written serde records ++ tail) =
      .ok (records, lineStart + (written serde records).length) := by
  induction records generalizing lineNo lineStart with
  | nil =>
    have hscan := @scan_line serde lineNo lineStart [] tail [] htail
    rw [List.append_nil] at hscan
    rw [written, List.map_nil, Lines.joined_nil, List.nil_append, hscan]
    rfl
  | cons record records ih =>
    have hkeep := hkeeps record List.mem_cons_self
    have hrest := @ih (lineNo + 1) (lineStart + (lineOf serde record).length + 1)
      fun other hmem => hkeeps other (List.mem_cons_of_mem _ hmem)
    rw [written, List.map_cons, Lines.joined_cons, List.append_assoc, List.cons_append]
    rw [scan_line hkeep.oneLine, List.nil_append, scan, if_pos rfl, if_neg hkeep.notBlank,
      hkeep.readsBack]
    rw [written] at hrest
    simp only [check_bind_ok, check_pure_ok]
    refine ⟨record, rfl, [record], rfl, _, hrest, ?_⟩
    rw [List.length_append, List.length_cons, List.singleton_append, Prod.mk.injEq]
    exact ⟨rfl, by omega⟩

theorem readRecords_written {tail : List UInt8} (hkeeps : ∀ record ∈ records, Keeps serde record)
    (htail : newline ∉ tail) :
    readRecords serde ⟨written serde records ++ tail⟩ = .ok records ⟨written serde records⟩ := by
  have hscan := @scan_written serde records 1 0 tail hkeeps htail
  rw [Nat.zero_add] at hscan
  unfold readRecords
  rw [bind_ok]
  refine ⟨_, _, get_ok.mpr ⟨rfl, rfl⟩, ?_⟩
  rw [bind_ok]
  refine ⟨_, _, attempt_ok.mpr ⟨hscan, rfl⟩, ?_⟩
  by_cases hlast : tail = []
  · subst hlast
    simp
  · have hcut : (written serde records).length < (written serde records ++ tail).length := by
      rw [List.length_append]
      exact Nat.lt_add_of_pos_right (List.length_pos_iff.mpr hlast)
    simp only [if_pos hcut, List.take_left]
    rfl

theorem written_append (before after : List LogRecord) :
    written serde (before ++ after) = written serde before ++ written serde after := by
  rw [written, List.map_append, Lines.joined_append, written, written]

theorem readRecords_appended (hkeeps : ∀ record ∈ records, Keeps serde record)
    (hlater : ∀ record ∈ later, Keeps serde record) :
    readRecords serde (later.foldl (appendLog serde) ⟨written serde records⟩) =
      .ok (records ++ later) ⟨written serde (records ++ later)⟩ := by
  have hfile : later.foldl (appendLog serde) ⟨written serde records⟩ =
      ⟨written serde (records ++ later) ++ []⟩ := by
    rw [List.append_nil, written_append]
    exact congrArg CommandLog.mk (appended_file _)
  rw [hfile]
  refine readRecords_written (fun record hmem => ?_) (by simp)
  rcases List.mem_append.mp hmem with hmem | hmem
  · exact hkeeps record hmem
  · exact hlater record hmem

/-- Whatever prefix of the appended bytes a crash leaves, reading returns exactly
the records whose newline lies within it and leaves the file at the last of these
newlines; records appended afterwards are read behind them, and reading again
changes nothing. -/
theorem torn_tail_repaired {file : List UInt8} (hkeeps : ∀ record ∈ records, Keeps serde record)
    (hfile : file <+: (records.foldl (appendLog serde) ⟨[]⟩).file) :
    ∃ kept, (∀ k < records.length, k < kept ↔
        (written serde (records.take (k + 1))).length ≤ file.length) ∧
      (∃ tail, file = written serde (records.take kept) ++ tail ∧ newline ∉ tail) ∧
      readRecords serde ⟨file⟩ =
        .ok (records.take kept) ⟨written serde (records.take kept)⟩ ∧
      readRecords serde ⟨written serde (records.take kept)⟩ =
        .ok (records.take kept) ⟨written serde (records.take kept)⟩ ∧
      ∀ later : List LogRecord, (∀ record ∈ later, Keeps serde record) → ∃ left,
        readRecords serde
            (later.foldl (appendLog serde) ⟨written serde (records.take kept)⟩) =
          .ok (records.take kept ++ later) left := by
  rw [appended_file, List.nil_append] at hfile
  have hlines : ∀ line ∈ records.map (lineOf serde), newline ∉ line := by
    intro line hline
    obtain ⟨record, hmem, rfl⟩ := List.mem_map.mp hline
    exact (hkeeps record hmem).oneLine
  obtain ⟨kept, tail, -, rfl, htail, hwithin⟩ := Lines.exists_cut hlines hfile
  have hsurvivors : ∀ record ∈ records.take kept, Keeps serde record :=
    fun record hmem => hkeeps record (List.mem_of_mem_take hmem)
  simp only [← List.map_take, List.length_map] at hwithin ⊢
  refine ⟨kept, hwithin, ⟨tail, rfl, htail⟩, readRecords_written hsurvivors htail, ?_, ?_⟩
  · have hagain := @readRecords_written serde (records.take kept) [] hsurvivors (by simp)
    rwa [List.append_nil] at hagain
  · exact fun later hlater => ⟨_, readRecords_appended hsurvivors hlater⟩

end Read

namespace Sample

/-- The bytes of two legacy records. -/
def firstLine : List UInt8 := "\x7b\"QuarantineNode\":\x7b\"node\":7\x7d\x7d".toUTF8.data.toList
def secondLine : List UInt8 := "\x7b\"UnquarantineNode\":\x7b\"node\":7\x7d\x7d".toUTF8.data.toList

/-- A serialiser of these two commands. -/
def serde : Serde where
  journalToVec _ := []
  commandToVec command := if command = .quarantineNode 7 then firstLine else secondLine
  journalFromSlice _ := .error "missing field sequence"
  commandFromSlice line :=
    if line = firstLine then .ok (.quarantineNode 7)
    else if line = secondLine then .ok (.unquarantineNode 7)
    else .error "expected value"

def records : List LogRecord := [.legacy (.quarantineNode 7), .legacy (.unquarantineNode 7)]

theorem keeps : ∀ record ∈ records, Keeps serde record := by
  intro record hmem
  simp only [records, List.mem_cons, List.not_mem_nil, or_false] at hmem
  rcases hmem with rfl | rfl
  · exact ⟨by decide +kernel, by decide +kernel, fun _ => rfl⟩
  · have hne : secondLine ≠ firstLine := by decide +kernel
    have hread : serde.commandFromSlice secondLine = .ok (.unquarantineNode 7) := by
      simp [serde, hne]
    refine ⟨by decide +kernel, by decide +kernel, fun lineNo => ?_⟩
    change readLine serde lineNo secondLine = _
    simp only [readLine, hread]
    rfl

end Sample

/-- A cut in the second line leaves the first record; a command appended then is
read behind it. -/
theorem sample_tail_repaired : ∃ left,
    readRecords Sample.serde ⟨Sample.firstLine ++ [newline] ++ Sample.secondLine.take 20⟩ =
        .ok (Sample.records.take 1) ⟨written Sample.serde (Sample.records.take 1)⟩ ∧
      readRecords Sample.serde ((Sample.records.drop 1).foldl (appendLog Sample.serde)
          ⟨written Sample.serde (Sample.records.take 1)⟩) =
        .ok Sample.records left := by
  have hprefix : Sample.firstLine ++ [newline] ++ Sample.secondLine.take 20 <+:
      (Sample.records.foldl (appendLog Sample.serde) ⟨[]⟩).file := by
    decide +kernel
  obtain ⟨kept, hwithin, -, hread, -, hafter⟩ := torn_tail_repaired Sample.keeps hprefix
  have hkept : kept = 1 := by
    have hfirst := (hwithin 0 (by decide)).mpr (by decide +kernel)
    have hsecond := mt (hwithin 1 (by decide)).mp (by decide +kernel)
    omega
  subst hkept
  obtain ⟨left, hafter⟩ := hafter (Sample.records.drop 1)
    fun record hmem => Sample.keeps record (List.mem_of_mem_drop hmem)
  exact ⟨left, hread, hafter⟩

end CommandLog
end Archon.Control
