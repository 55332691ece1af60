import Mathlib

/-! The part of eBPF that a filter without memory writes needs: ten 64-bit
registers and a frame pointer, 32-bit arithmetic that clears the upper half, and
jumps relative to the next instruction. Leaving the program, reading unmapped
memory and an unknown instruction are faults. -/
namespace Bpf

/-- A raw instruction in field order. -/
structure Insn where
  code : UInt8
  dstReg : UInt8
  srcReg : UInt8
  off : Int16
  imm : Int32
  deriving DecidableEq

def ldxMemW : UInt8 := 0x61
def alu64MovReg : UInt8 := 0xbf
def alu32MovImm : UInt8 := 0xb4
def alu32AndImm : UInt8 := 0x54
def alu32RshImm : UInt8 := 0x74
def jmp32JneImm : UInt8 := 0x56
def ja : UInt8 := 0x05
def exit : UInt8 := 0x95

/-- The register that holds the address of the context on entry. -/
def contextReg : UInt8 := 1

/-- 32-bit words that may be read, by address. -/
abbrev Memory := UInt64 → Option UInt32

structure Machine where
  pc : Int
  regs : UInt8 → UInt64

namespace Machine

def word (self : Machine) (reg : UInt8) : UInt32 := (self.regs reg).toUInt32

/-- Write a register and go on with the next instruction. -/
def write (self : Machine) (reg : UInt8) (value : UInt64) : Machine where
  pc := self.pc + 1
  regs := fun other => if other = reg then value else self.regs other

/-- Skip `distance` instructions after this one. -/
def jump (self : Machine) (distance : Int) : Machine := { self with pc := self.pc + 1 + distance }

@[simp] theorem write_pc (self : Machine) (reg : UInt8) (value : UInt64) :
    (self.write reg value).pc = self.pc + 1 := rfl

@[simp] theorem write_regs_same (self : Machine) (reg : UInt8) (value : UInt64) :
    (self.write reg value).regs reg = value := by simp [write]

@[simp] theorem write_regs_other {self : Machine} {reg other : UInt8} {value : UInt64} (h : other ≠ reg) :
    (self.write reg value).regs other = self.regs other := by simp [write, h]

@[simp] theorem word_write_same (self : Machine) (reg : UInt8) (value : UInt64) :
    (self.write reg value).word reg = value.toUInt32 := by simp [word]

@[simp] theorem jump_pc (self : Machine) (distance : Int) :
    (self.jump distance).pc = self.pc + 1 + distance := rfl

@[simp] theorem jump_regs (self : Machine) (distance : Int) : (self.jump distance).regs = self.regs :=
  rfl

end Machine

inductive Outcome where
  | next (machine : Machine)
  | exit (value : UInt64)
  | fault

/-- The instruction at the program counter. -/
def fetch (program : List Insn) (pc : Int) : Option Insn :=
  if pc < 0 then none else program[pc.toNat]?

/-- Execute one instruction. -/
def execute (memory : Memory) (self : Machine) (insn : Insn) : Outcome :=
  if 10 < insn.dstReg || 10 < insn.srcReg then
    .fault
  else if insn.code = ldxMemW then
    match memory (self.regs insn.srcReg + insn.off.toInt64.toUInt64) with
    | some word => .next (self.write insn.dstReg word.toUInt64)
    | none => .fault
  else if insn.code = alu64MovReg then
    .next (self.write insn.dstReg (self.regs insn.srcReg))
  else if insn.code = alu32MovImm then
    .next (self.write insn.dstReg insn.imm.toUInt32.toUInt64)
  else if insn.code = alu32AndImm then
    .next (self.write insn.dstReg (self.word insn.dstReg &&& insn.imm.toUInt32).toUInt64)
  else if insn.code = alu32RshImm then
    .next (self.write insn.dstReg (self.word insn.dstReg >>> insn.imm.toUInt32).toUInt64)
  else if insn.code = jmp32JneImm then
    if self.word insn.dstReg = insn.imm.toUInt32 then .next (self.jump 0)
    else .next (self.jump insn.off.toInt)
  else if insn.code = ja then
    .next (self.jump insn.off.toInt)
  else if insn.code = exit then
    .exit (self.regs 0)
  else
    .fault

def step (program : List Insn) (memory : Memory) (self : Machine) : Outcome :=
  match fetch program self.pc with
  | some insn => execute memory self insn
  | none => .fault

/-- The value a program exits with within `fuel` steps, if it does. -/
def run (program : List Insn) (memory : Memory) : Nat → Machine → Option UInt64
  | 0, _ => none
  | fuel + 1, self =>
    match step program memory self with
    | .next machine => run program memory fuel machine
    | .exit value => some value
    | .fault => none

/-- The program reaches an exit from here and returns `value`. -/
inductive Exits (program : List Insn) (memory : Memory) : Machine → UInt64 → Prop where
  | exit {self : Machine} {value : UInt64} (h : step program memory self = .exit value) :
      Exits program memory self value
  | next {self machine : Machine} {value : UInt64} (h : step program memory self = .next machine)
      (hrest : Exits program memory machine value) : Exits program memory self value

variable {program : List Insn} {memory : Memory} {self : Machine} {value : UInt64}

/-- An exit is what some amount of fuel finds. -/
theorem exits_iff : Exits program memory self value ↔
    ∃ fuel, run program memory fuel self = some value := by
  constructor
  · intro h
    induction h with
    | exit h => exact ⟨1, by simp [run, h]⟩
    | next h _ ih =>
      obtain ⟨fuel, hfuel⟩ := ih
      exact ⟨fuel + 1, by simp [run, h, hfuel]⟩
  · rintro ⟨fuel, hfuel⟩
    induction fuel generalizing self with
    | zero => simp [run] at hfuel
    | succ fuel ih =>
      rw [run] at hfuel
      cases hstep : step program memory self with
      | next machine =>
        rw [hstep] at hfuel
        exact .next hstep (ih hfuel)
      | exit found =>
        rw [hstep] at hfuel
        cases hfuel
        exact .exit hstep
      | fault => simp [hstep] at hfuel

/-! One instruction at a time, in a program cut into what stands before and after. -/

section Steps
variable {before rest : List Insn} {insn : Insn} {index : Nat}

theorem fetch_append (hpc : self.pc = before.length + index) :
    fetch (before ++ rest) self.pc = rest[index]? := by
  rw [fetch, hpc, if_neg (by omega)]
  rw [show ((before.length : Int) + index).toNat = before.length + index by omega]
  rw [List.getElem?_append_right (Nat.le_add_right _ _), Nat.add_sub_cancel_left]

theorem step_append (hpc : self.pc = before.length + index) (hinsn : rest[index]? = some insn) :
    step (before ++ rest) memory self = execute memory self insn := by
  rw [step, fetch_append hpc, hinsn]

/-- Go on after the instruction at `index`. -/
theorem Exits.after {machine : Machine} (index : Nat) (hpc : self.pc = before.length + index)
    (hinsn : rest[index]? = some insn) (hexecute : execute memory self insn = .next machine)
    (hrest : Exits (before ++ rest) memory machine value) :
    Exits (before ++ rest) memory self value :=
  .next ((step_append hpc hinsn).trans hexecute) hrest

end Steps
end Bpf
