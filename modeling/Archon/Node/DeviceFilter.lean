import Archon.Lib.Bpf

/-! The device filter of a lease: a program that grants the claimed devices and
denies every other. Each rule compiles to one block of ten instructions; every
mismatch jumps to the next block, and a full match to the shared epilogue. -/
namespace Archon.Node.DeviceFilter
open Bpf

def devcgAccMknod : UInt32 := 1
def devcgAccRead : UInt32 := 2
def devcgAccWrite : UInt32 := 4

/-- One allowed device with its granted access bits. -/
structure DeviceRule where
  devType : UInt32
  major : UInt32
  minor : UInt32
  access : UInt32
  deriving DecidableEq

/-! Instructions. -/

def movImm (dst : UInt8) (imm : Int32) : Insn := ⟨alu32MovImm, dst, 0, 0, imm⟩
def movReg (dst src : UInt8) : Insn := ⟨alu64MovReg, dst, src, 0, 0⟩
def andImm (dst : UInt8) (imm : UInt32) : Insn := ⟨alu32AndImm, dst, 0, 0, imm.toInt32⟩
def rshImm (dst : UInt8) (imm : UInt32) : Insn := ⟨alu32RshImm, dst, 0, 0, imm.toInt32⟩
def loadCtxWord (dst : UInt8) (byteOff : UInt16) : Insn := ⟨ldxMemW, dst, 1, byteOff.toInt16, 0⟩
def jneImm (dst : UInt8) (off : Int16) (imm : UInt32) : Insn :=
  ⟨jmp32JneImm, dst, 0, off, imm.toInt32⟩
def jumpAlways (off : Int16) : Insn := ⟨ja, 0, 0, off, 0⟩
def exitInsn : Insn := ⟨exit, 0, 0, 0, 0⟩

/-! Compilation. -/

/-- Offsets are relative to the instruction after the jump and kept in 16 bits. -/
def jumpTo (source target : Nat) : Int16 := Int16.ofNat (target - source - 1)

def DeviceRule.granted (self : DeviceRule) : UInt32 :=
  self.access &&& (devcgAccRead ||| devcgAccWrite ||| devcgAccMknod)

/-- The block of a rule that starts at instruction `s`. -/
def ruleBlock (s nextRule allow : Nat) (rule : DeviceRule) : List Insn := [
  movReg 6 2,
  rshImm 6 16,
  andImm 6 (~~~rule.granted),
  jneImm 6 (jumpTo (s + 3) nextRule) 0,
  movReg 6 2,
  andImm 6 0xffff,
  jneImm 6 (jumpTo (s + 6) nextRule) rule.devType,
  jneImm 3 (jumpTo (s + 7) nextRule) rule.major,
  jneImm 4 (jumpTo (s + 8) nextRule) rule.minor,
  jumpAlways (jumpTo (s + 9) allow)]

/-- The blocks of the rules from instruction `s` on; the last one falls to `deny`. -/
def ruleBlocks (allow deny : Nat) : Nat → List DeviceRule → List Insn
  | _, [] => []
  | s, rule :: rest =>
    ruleBlock s (if rest = [] then deny else s + 10) allow rule ++ ruleBlocks allow deny (s + 10) rest

/-- Load the access type, the major and the minor number. -/
def prologue : List Insn := [loadCtxWord 2 0, loadCtxWord 3 4, loadCtxWord 4 8]

def epilogue : List Insn := [movImm 0 1, exitInsn, movImm 0 0, exitInsn]

/-- Without rules the program denies at once. -/
def compile (rules : List DeviceRule) : List Insn :=
  if rules = [] then
    [movImm 0 0, exitInsn]
  else
    let allow := prologue.length + rules.length * 10
    let deny := allow + 2
    prologue ++ ruleBlocks allow deny prologue.length rules ++ epilogue

/-- The three words of the context, at the address the program is entered with. -/
def context (base : UInt64) (accessType major minor : UInt32) : Memory := fun address =>
  if address = base then some accessType
  else if address = base + 4 then some major
  else if address = base + 8 then some minor
  else none

/-- A program starts at its first instruction, with only the context address known. -/
def enter (regs : UInt8 → UInt64) : Machine := ⟨0, regs⟩

/-! What a rule allows. -/

/-- Every requested access bit is granted, and type and numbers are the rule's. -/
structure DeviceRule.Allows (rule : DeviceRule) (accessType major minor : UInt32) : Prop where
  access : ∀ bit, (accessType >>> 16).toNat.testBit bit → rule.granted.toNat.testBit bit
  devType : accessType.toNat % 2 ^ 16 = rule.devType.toNat
  major : major = rule.major
  minor : minor = rule.minor

theorem and_not_eq_zero_iff (requested granted : UInt32) :
    requested &&& ~~~granted = 0 ↔
      ∀ bit, requested.toNat.testBit bit → granted.toNat.testBit bit := by
  rw [← UInt32.toBitVec_inj]
  simp only [UInt32.toBitVec_and, UInt32.toBitVec_not]
  constructor
  · intro h bit hbit
    by_contra hmissing
    have hlt : bit < 32 := by
      by_contra hge
      rw [Nat.testBit_lt_two_pow (requested.toNat_lt.trans_le (Nat.pow_le_pow_right (by decide)
        (by omega : 32 ≤ bit)))] at hbit
      cases hbit
    have hbits := congrArg (fun bits => bits.getLsbD bit) h
    simp only [BitVec.getLsbD_and, BitVec.getLsbD_not] at hbits
    simp_all [BitVec.getLsbD]
  · intro h
    apply BitVec.eq_of_getLsbD_eq
    intro bit hlt
    have := h bit
    simp only [BitVec.getLsbD_and, BitVec.getLsbD_not]
    simp_all [BitVec.getLsbD]

theorem and_lowHalf_eq_iff (accessType devType : UInt32) :
    accessType &&& 0xffff = devType ↔ accessType.toNat % 2 ^ 16 = devType.toNat := by
  rw [← UInt32.toNat_inj, UInt32.toNat_and]
  exact Eq.congr_left (Nat.and_two_pow_sub_one_eq_mod accessType.toNat 16)

/-! What each instruction does. -/

section Instructions
variable {memory : Memory} {m : Machine} {dst src : UInt8} {off : Int16} {imm : UInt32}

theorem execute_movImm {imm : Int32} (hdst : dst ≤ 10) :
    execute memory m (movImm dst imm) = .next (m.write dst imm.toUInt32.toUInt64) := by
  have h : ¬10 < dst := by simpa using hdst
  simp [execute, movImm, h, ldxMemW, alu64MovReg, alu32MovImm]

theorem execute_movReg (hdst : dst ≤ 10) (hsrc : src ≤ 10) :
    execute memory m (movReg dst src) = .next (m.write dst (m.regs src)) := by
  have h : ¬10 < dst := by simpa using hdst
  have h' : ¬10 < src := by simpa using hsrc
  simp [execute, movReg, h, h', ldxMemW, alu64MovReg]

theorem execute_andImm (hdst : dst ≤ 10) :
    execute memory m (andImm dst imm) = .next (m.write dst (m.word dst &&& imm).toUInt64) := by
  have h : ¬10 < dst := by simpa using hdst
  simp [execute, andImm, h, ldxMemW, alu64MovReg, alu32MovImm, alu32AndImm]

theorem execute_rshImm (hdst : dst ≤ 10) :
    execute memory m (rshImm dst imm) = .next (m.write dst (m.word dst >>> imm).toUInt64) := by
  have h : ¬10 < dst := by simpa using hdst
  simp [execute, rshImm, h, ldxMemW, alu64MovReg, alu32MovImm, alu32AndImm, alu32RshImm]

theorem execute_jneImm (hdst : dst ≤ 10) :
    execute memory m (jneImm dst off imm) =
      .next (if m.word dst = imm then m.jump 0 else m.jump off.toInt) := by
  have h : ¬10 < dst := by simpa using hdst
  simp [execute, jneImm, h, ldxMemW, alu64MovReg, alu32MovImm, alu32AndImm, alu32RshImm,
    jmp32JneImm, apply_ite Outcome.next]

theorem execute_jumpAlways : execute memory m (jumpAlways off) = .next (m.jump off.toInt) := by
  simp [execute, jumpAlways, ldxMemW, alu64MovReg, alu32MovImm, alu32AndImm, alu32RshImm,
    jmp32JneImm, ja]

theorem execute_exitInsn : execute memory m exitInsn = .exit (m.regs 0) := by
  simp [execute, exitInsn, ldxMemW, alu64MovReg, alu32MovImm, alu32AndImm, alu32RshImm,
    jmp32JneImm, ja, exit]

theorem execute_loadCtxWord {byteOff : UInt16} {word : UInt32} (hdst : dst ≤ 10)
    (hword : memory (m.regs 1 + byteOff.toInt16.toInt64.toUInt64) = some word) :
    execute memory m (loadCtxWord dst byteOff) = .next (m.write dst word.toUInt64) := by
  have h : ¬10 < dst := by simpa using hdst
  simp [execute, loadCtxWord, h, hword]

theorem jump_jumpTo {source target : Nat} (hpc : m.pc = source) (hforward : source < target)
    (hfits : target - source - 1 < 2 ^ 15) : (m.jump (jumpTo source target).toInt).pc = target := by
  rw [Machine.jump_pc, jumpTo, Int16.toInt_ofNat_of_lt hfits, hpc]
  omega

end Instructions

/-! What a program of blocks does. -/

/-- The registers hold what the prologue loads. -/
structure Loaded (accessType major minor : UInt32) (m : Machine) : Prop where
  accessType : m.regs 2 = accessType.toUInt64
  major : m.regs 3 = major.toUInt64
  minor : m.regs 4 = minor.toUInt64

section Blocks
variable {accessType major minor : UInt32} {m : Machine} {memory : Memory} {value : UInt64}
  {before rest : List Insn} {rule : DeviceRule} {s nextRule allow : Nat}

theorem Loaded.write (h : Loaded accessType major minor m) (value : UInt64) :
    Loaded accessType major minor (m.write 6 value) where
  accessType := (Machine.write_regs_other (by decide)).trans h.accessType
  major := (Machine.write_regs_other (by decide)).trans h.major
  minor := (Machine.write_regs_other (by decide)).trans h.minor

theorem Loaded.jump (h : Loaded accessType major minor m) (distance : Int) :
    Loaded accessType major minor (m.jump distance) := ⟨h.accessType, h.major, h.minor⟩

/-- Every machine at `pc` with the loaded registers exits with `value`. -/
def ExitsAt (program : List Insn) (memory : Memory) (accessType major minor : UInt32) (pc : Int)
    (value : UInt64) : Prop :=
  ∀ m : Machine, m.pc = pc → Loaded accessType major minor m → Exits program memory m value

theorem exits_of_test {imm : UInt32} (dst : UInt8) (index : Nat) (hdst : dst ≤ 10)
    (hpc : m.pc = before.length + index) (hloaded : Loaded accessType major minor m)
    (hinsn : rest[index]? = some (jneImm dst (jumpTo (before.length + index) nextRule) imm))
    (hforward : before.length + index < nextRule) (hfits : nextRule - before.length < 2 ^ 15)
    (hgo : m.word dst = imm →
      ExitsAt (before ++ rest) memory accessType major minor (before.length + (index + 1)) value)
    (hleave : m.word dst ≠ imm →
      ExitsAt (before ++ rest) memory accessType major minor nextRule value) :
    Exits (before ++ rest) memory m value := by
  refine .after index hpc hinsn (execute_jneImm hdst) ?_
  split
  · rename_i heq
    exact hgo heq _ (by simp [hpc]; omega) (hloaded.jump 0)
  · rename_i hne
    exact hleave hne _ (jump_jumpTo (by rw [hpc]; push_cast; rfl) hforward (by omega))
      (hloaded.jump _)

section Block
variable (hnext : before.length + 9 < nextRule) (hnextFits : nextRule - before.length < 2 ^ 15)
include hnext hnextFits

theorem exitsAt_access
    (hgo : (∀ bit, (accessType >>> 16).toNat.testBit bit → rule.granted.toNat.testBit bit) →
      ExitsAt (before ++ (ruleBlock before.length nextRule allow rule ++ rest)) memory
        accessType major minor (before.length + 4) value)
    (hleave : ¬rule.Allows accessType major minor →
      ExitsAt (before ++ (ruleBlock before.length nextRule allow rule ++ rest)) memory
        accessType major minor nextRule value) :
    ExitsAt (before ++ (ruleBlock before.length nextRule allow rule ++ rest)) memory
      accessType major minor before.length value := by
  intro m hpc hloaded
  refine .after 0 (by simp [hpc]) rfl (execute_movReg (by decide) (by decide)) ?_
  refine .after 1 (by simp [hpc]) rfl (execute_rshImm (by decide)) ?_
  refine .after 2 (by simp [hpc]; omega) rfl (execute_andImm (by decide)) ?_
  refine exits_of_test 6 3 (by decide) (by simp [hpc]; omega) (((hloaded.write _).write _).write _) rfl
    (by omega) hnextFits ?_ ?_
  all_goals
    simp only [Machine.word_write_same, hloaded.accessType, UInt32.toUInt32_toUInt64, ne_eq,
      and_not_eq_zero_iff]
  · exact hgo
  · exact fun haccess => hleave fun h => haccess h.access

theorem exitsAt_devType
    (hgo : accessType.toNat % 2 ^ 16 = rule.devType.toNat →
      ExitsAt (before ++ (ruleBlock before.length nextRule allow rule ++ rest)) memory
        accessType major minor (before.length + 7) value)
    (hleave : ¬rule.Allows accessType major minor →
      ExitsAt (before ++ (ruleBlock before.length nextRule allow rule ++ rest)) memory
        accessType major minor nextRule value) :
    ExitsAt (before ++ (ruleBlock before.length nextRule allow rule ++ rest)) memory
      accessType major minor (before.length + 4) value := by
  intro m hpc hloaded
  refine .after 4 (by simp [hpc]) rfl (execute_movReg (by decide) (by decide)) ?_
  refine .after 5 (by simp [hpc]; omega) rfl (execute_andImm (by decide)) ?_
  refine exits_of_test 6 6 (by decide) (by simp [hpc]; omega) ((hloaded.write _).write _) rfl
    (by omega) hnextFits ?_ ?_
  all_goals
    simp only [Machine.word_write_same, hloaded.accessType, UInt32.toUInt32_toUInt64, ne_eq,
      and_lowHalf_eq_iff]
  · exact hgo
  · exact fun htype => hleave fun h => htype h.devType

theorem exitsAt_numbers (hallow : before.length + 9 < allow)
    (hallowFits : allow - before.length - 10 < 2 ^ 15)
    (hgo : major = rule.major → minor = rule.minor →
      ExitsAt (before ++ (ruleBlock before.length nextRule allow rule ++ rest)) memory
        accessType major minor allow value)
    (hleave : ¬rule.Allows accessType major minor →
      ExitsAt (before ++ (ruleBlock before.length nextRule allow rule ++ rest)) memory
        accessType major minor nextRule value) :
    ExitsAt (before ++ (ruleBlock before.length nextRule allow rule ++ rest)) memory
      accessType major minor (before.length + 7) value := by
  intro m hpc hloaded
  refine exits_of_test 3 7 (by decide) (by simp [hpc]) hloaded rfl (by omega) hnextFits ?_ ?_
  all_goals
    simp only [Machine.word, hloaded.major, UInt32.toUInt32_toUInt64, ne_eq]
  · intro hmajor m hpc hloaded
    refine exits_of_test 4 8 (by decide) (by simp [hpc]) hloaded rfl (by omega) hnextFits ?_ ?_
    all_goals
      simp only [Machine.word, hloaded.minor, UInt32.toUInt32_toUInt64, ne_eq]
    · intro hminor m hpc hloaded
      refine .after 9 (by simp [hpc]) rfl execute_jumpAlways ?_
      exact hgo hmajor hminor _ (jump_jumpTo (by rw [hpc]; push_cast; rfl) hallow (by omega))
        (hloaded.jump _)
    · exact fun hminor => hleave fun h => hminor h.minor
  · exact fun hmajor => hleave fun h => hmajor h.major

/-- A block leads to the grant if its rule allows the access, and to the next
rule if not. -/
theorem exitsAt_ruleBlock (hallow : before.length + 9 < allow)
    (hallowFits : allow - before.length - 10 < 2 ^ 15)
    (hgrant : rule.Allows accessType major minor →
      ExitsAt (before ++ (ruleBlock before.length nextRule allow rule ++ rest)) memory
        accessType major minor allow value)
    (hleave : ¬rule.Allows accessType major minor →
      ExitsAt (before ++ (ruleBlock before.length nextRule allow rule ++ rest)) memory
        accessType major minor nextRule value) :
    ExitsAt (before ++ (ruleBlock before.length nextRule allow rule ++ rest)) memory
      accessType major minor before.length value := by
  refine exitsAt_access hnext hnextFits (fun haccess => ?_) hleave
  refine exitsAt_devType hnext hnextFits (fun htype => ?_) hleave
  refine exitsAt_numbers hnext hnextFits hallow hallowFits (fun hmajor hminor => ?_) hleave
  exact hgrant ⟨haccess, htype, hmajor, hminor⟩

end Block

/-- One is the grant and zero the refusal of an access. -/
structure Verdict (rules : List DeviceRule) (accessType major minor : UInt32) (value : UInt64) :
    Prop where
  granted : (∃ rule ∈ rules, rule.Allows accessType major minor) → value = 1
  denied : (¬∃ rule ∈ rules, rule.Allows accessType major minor) → value = 0

theorem Verdict.later {rules : List DeviceRule}
    (h : Verdict (rule :: rules) accessType major minor value)
    (hrule : ¬rule.Allows accessType major minor) : Verdict rules accessType major minor value where
  granted := by
    rintro ⟨other, hmem, hallows⟩
    exact h.granted ⟨other, List.mem_cons_of_mem _ hmem, hallows⟩
  denied hnone := h.denied (by simpa [hrule] using hnone)

theorem exitsAt_allow (hallow : before.length = allow) :
    ExitsAt (before ++ epilogue) memory accessType major minor allow 1 := by
  intro m hpc hloaded
  subst hallow
  refine .after 0 (by simp [hpc]) rfl (execute_movImm (by decide)) ?_
  exact .exit ((step_append (by simp [hpc]) (rfl : epilogue[1]? = some _)).trans execute_exitInsn)

theorem exitsAt_deny (hallow : before.length = allow) :
    ExitsAt (before ++ epilogue) memory accessType major minor (allow + 2) 0 := by
  intro m hpc hloaded
  subst hallow
  refine .after 2 (by simp [hpc]) rfl (execute_movImm (by decide)) ?_
  exact .exit ((step_append (by simp [hpc]; omega) (rfl : epilogue[3]? = some _)).trans
    execute_exitInsn)

theorem length_ruleBlocks (allow deny s : Nat) (rules : List DeviceRule) :
    (ruleBlocks allow deny s rules).length = rules.length * 10 := by
  induction rules generalizing s with
  | nil => rfl
  | cons rule rest ih =>
    rw [ruleBlocks, List.length_append, ih, List.length_cons, Nat.succ_mul, Nat.add_comm]
    rfl

@[simp] theorem length_ruleBlock : (ruleBlock s nextRule allow rule).length = 10 := rfl

/-- From the first block on the program answers as the rules do. The induction
cuts the program after each block. -/
theorem exitsAt_ruleBlocks {program : List Insn} {rules : List DeviceRule} {allow : Nat}
    (hprogram : program =
      before ++ (ruleBlocks allow (allow + 2) before.length rules ++ epilogue))
    (hrules : rules ≠ []) (hallow : before.length + rules.length * 10 = allow)
    (hlength : rules.length ≤ 3277)
    (hgrant : ExitsAt program memory accessType major minor allow 1)
    (hdeny : ExitsAt program memory accessType major minor (allow + 2) 0)
    (hverdict : Verdict rules accessType major minor value) :
    ExitsAt program memory accessType major minor before.length value := by
  induction rules generalizing before with
  | nil => exact absurd rfl hrules
  | cons rule rest ih =>
    rw [List.length_cons] at hallow hlength
    rw [ruleBlocks, List.append_assoc] at hprogram
    have hnext : before.length + 9 < (if rest = [] then allow + 2 else before.length + 10) ∧
        (if rest = [] then allow + 2 else before.length + 10) - before.length < 2 ^ 15 := by
      split
      · rename_i hrest
        simp only [hrest, List.length_nil] at hallow
        omega
      · omega
    rw [hprogram]
    refine exitsAt_ruleBlock hnext.1 hnext.2 (by omega) (by omega) ?_ ?_ <;> rw [← hprogram]
    · intro hallows
      rw [hverdict.granted ⟨rule, List.mem_cons_self, hallows⟩]
      exact hgrant
    · intro hallows
      have hlater := hverdict.later hallows
      by_cases hrest : rest = []
      · rw [hlater.denied (by simp [hrest]), if_pos hrest]
        exact_mod_cast hdeny
      · rw [if_neg hrest] at hprogram ⊢
        rw [← List.append_assoc] at hprogram
        have hafter : (before ++ ruleBlock before.length (before.length + 10) allow rule).length =
            before.length + 10 := by simp
        have hlast := @ih (before ++ ruleBlock before.length (before.length + 10) allow rule)
        rw [hafter] at hlast
        exact hlast hprogram hrest (by omega) (by omega) hlater

end Blocks

/-! The compiled program. -/

section Compiled
variable {rules : List DeviceRule} {accessType major minor : UInt32} {value : UInt64}

theorem context_words (base : UInt64) :
    context base accessType major minor (base + (0 : UInt16).toInt16.toInt64.toUInt64) =
        some accessType ∧
      context base accessType major minor (base + (4 : UInt16).toInt16.toInt64.toUInt64) =
        some major ∧
      context base accessType major minor (base + (8 : UInt16).toInt16.toInt64.toUInt64) =
        some minor := by
  rw [show (0 : UInt16).toInt16.toInt64.toUInt64 = 0 from rfl,
    show (4 : UInt16).toInt16.toInt64.toUInt64 = 4 from rfl,
    show (8 : UInt16).toInt16.toInt64.toUInt64 = 8 from rfl]
  simp [context]

theorem exits_prologue {rest : List Insn} {regs : UInt8 → UInt64}
    (h : ExitsAt (prologue ++ rest) (context (regs 1) accessType major minor)
      accessType major minor prologue.length value) :
    Exits (prologue ++ rest) (context (regs 1) accessType major minor) (enter regs) value := by
  obtain ⟨haccess, hmajor, hminor⟩ := @context_words accessType major minor (regs 1)
  refine .next ((@step_append _ _ [] _ _ 0 rfl rfl).trans
    (execute_loadCtxWord (by decide) haccess)) ?_
  refine .next ((@step_append _ _ [] _ _ 1 rfl rfl).trans
    (execute_loadCtxWord (by decide) hmajor)) ?_
  refine .next ((@step_append _ _ [] _ _ 2 rfl rfl).trans
    (execute_loadCtxWord (by decide) hminor)) ?_
  exact h _ rfl ⟨rfl, rfl, rfl⟩

theorem compile_exits (hlength : rules.length ≤ 3277)
    (hverdict : Verdict rules accessType major minor value) (regs : UInt8 → UInt64) :
    Exits (compile rules) (context (regs 1) accessType major minor) (enter regs) value := by
  unfold compile
  split
  · rename_i hrules
    rw [hverdict.denied (by simp [hrules])]
    refine .next ((@step_append _ _ [] _ _ 0 rfl rfl).trans (execute_movImm (by decide))) ?_
    exact .exit ((@step_append _ _ [] _ _ 1 rfl rfl).trans execute_exitInsn)
  · rename_i hrules
    dsimp only
    rw [List.append_assoc]
    refine exits_prologue ?_
    refine exitsAt_ruleBlocks rfl hrules rfl hlength ?_ ?_ hverdict
    all_goals rw [← List.append_assoc]
    · exact exitsAt_allow (by rw [List.length_append, length_ruleBlocks])
    · exact exitsAt_deny (by rw [List.length_append, length_ruleBlocks])

/-- The compiled filter exits and answers one for an access that some rule
allows, and zero for every other. The bound is the longest program whose jumps
all fit their offsets. -/
theorem compile_correct (hlength : rules.length ≤ 3277) (regs : UInt8 → UInt64) :
    ∃ fuel value, run (compile rules) (context (regs contextReg) accessType major minor) fuel
        (enter regs) = some value ∧
      ((∃ rule ∈ rules, rule.Allows accessType major minor) → value = 1) ∧
      (¬(∃ rule ∈ rules, rule.Allows accessType major minor) → value = 0) := by
  obtain ⟨value, hverdict⟩ : ∃ value, Verdict rules accessType major minor value := by
    by_cases hallows : ∃ rule ∈ rules, rule.Allows accessType major minor
    · exact ⟨1, fun _ => rfl, fun h => absurd hallows h⟩
    · exact ⟨0, fun h => absurd h hallows, fun _ => rfl⟩
  obtain ⟨fuel, hrun⟩ := exits_iff.mp (compile_exits hlength hverdict regs)
  exact ⟨fuel, value, hrun, hverdict.granted, hverdict.denied⟩

end Compiled

namespace Sample

/-- A character device granted for reading and writing, a block device for mknod. -/
def rules : List DeviceRule := [⟨2, 195, 0, 6⟩, ⟨1, 8, 16, 1⟩]

end Sample

/-- Reading the first device is allowed, and the program grants it. -/
theorem sample_read_granted :
    (∃ rule ∈ Sample.rules, rule.Allows 131074 195 0) ∧
      ∃ fuel, run (compile Sample.rules) (context 0 131074 195 0) fuel (enter fun _ => 0) =
        some 1 := by
  have hallows : ∃ rule ∈ Sample.rules, rule.Allows 131074 195 0 := by
    refine ⟨⟨2, 195, 0, 6⟩, List.mem_cons_self, ?_, rfl, rfl, rfl⟩
    exact (and_not_eq_zero_iff _ _).mp (by decide)
  obtain ⟨fuel, value, hrun, hgranted, -⟩ :=
    @compile_correct Sample.rules 131074 195 0 (by decide) fun _ => 0
  exact ⟨hallows, fuel, hgranted hallows ▸ hrun⟩

/-- Another minor number is denied. -/
example : run (compile Sample.rules) (context 0 131074 195 1) 40 (enter fun _ => 0) = some 0 := by
  decide +kernel

end Archon.Node.DeviceFilter
