import Archon.Lib.OrdMap
import Archon.Lib.Fallible

/-! Identities of the kernel: numeric ids, one family per kind of record, and
the validated lowercase identifiers that name resource classes and capacity
dimensions. -/
namespace Archon.Kernel
open Std

inductive IdKind where
  | node | lease | binding | request | owner | provider | factWriter
  deriving DecidableEq

def IdKind.typeName : IdKind → String
  | .node => "NodeId"
  | .lease => "LeaseId"
  | .binding => "BindingId"
  | .request => "RequestId"
  | .owner => "OwnerId"
  | .provider => "ProviderId"
  | .factWriter => "FactWriterId"

/-- A 64-bit id of one kind; ids of different kinds never mix. -/
structure Id (kind : IdKind) where
  asU64 : UInt64
  deriving DecidableEq

abbrev NodeId := Id .node
abbrev LeaseId := Id .lease
abbrev BindingId := Id .binding
abbrev RequestId := Id .request
abbrev OwnerId := Id .owner
abbrev ProviderId := Id .provider
abbrev FactWriterId := Id .factWriter

instance (n : Nat) : OfNat (Id kind) n := ⟨⟨OfNat.ofNat n⟩⟩
instance : ToString (Id kind) := ⟨fun id => s!"{kind.typeName}({id.asU64})"⟩

instance : LawfulBEq (Id kind) := inferInstance

instance : Ord (Id kind) := ⟨compareOn Id.asU64⟩
instance : TransOrd (Id kind) := inferInstanceAs (TransCmp (compareOn Id.asU64))
instance : LawfulEqOrd (Id kind) where
  eq_of_compare {a b} h := by
    cases a
    cases b
    exact congrArg Id.mk (LawfulEqOrd.eq_of_compare h)

/-- The enforcement provider every host ships. -/
def ProviderId.enforce : ProviderId := 1

def maxIdentifierLen : Nat := 63

inductive IdentifierError where
  | empty
  | tooLong
  | invalidCharacter (index : Nat)
  | invalidBoundary
  deriving DecidableEq

def isAsciiLowercase (byte : UInt8) : Bool := 97 ≤ byte && byte ≤ 122
def isAsciiUppercase (byte : UInt8) : Bool := 65 ≤ byte && byte ≤ 90
def isAsciiDigit (byte : UInt8) : Bool := 48 ≤ byte && byte ≤ 57

def isAsciiAlphanumeric (byte : UInt8) : Bool :=
  isAsciiLowercase byte || isAsciiUppercase byte || isAsciiDigit byte

/-- The bytes `-`, `_`, `.` and `/`. -/
def isIdentifierPunctuation (byte : UInt8) : Bool :=
  byte == 45 || byte == 95 || byte == 46 || byte == 47

def validateIdentifier (value : String) : Except IdentifierError Unit := do
  let bytes := value.toUTF8.data.toList
  refuseIf (bytes = []) .empty
  refuseIf (maxIdentifierLen < bytes.length) .tooLong
  refuseIf (¬(bytes.head?.any isAsciiAlphanumeric) ∨ ¬(bytes.getLast?.any isAsciiAlphanumeric))
    .invalidBoundary
  match bytes.findIdx? fun byte =>
      !isAsciiLowercase byte && !isAsciiDigit byte && !isIdentifierPunctuation byte with
  | some index => .error (.invalidCharacter index)
  | none => .ok ()

inductive IdentifierKind where
  | resourceClass | capacityDimension
  deriving DecidableEq

/-- A name that passed validation. The source keeps the bytes inline, padded
with zeros to the maximal length; no accepted byte is zero, so equality and
order are those of the name. -/
structure Identifier (kind : IdentifierKind) where
  name : String
  valid : validateIdentifier name = .ok ()
  deriving DecidableEq

instance : ToString (Identifier kind) := ⟨Identifier.name⟩

instance : Ord (Identifier kind) := ⟨compareOn Identifier.name⟩
instance : TransOrd (Identifier kind) := inferInstanceAs (TransCmp (compareOn Identifier.name))
instance : LawfulEqOrd (Identifier kind) where
  eq_of_compare {a b} h := by
    cases a
    cases b
    have hname := LawfulEqOrd.eq_of_compare (α := String) h
    simp only [Identifier.mk.injEq]
    exact hname

abbrev ResourceClass := Identifier .resourceClass
abbrev CapacityDimension := Identifier .capacityDimension

namespace ResourceClass
def machine : ResourceClass := ⟨"machine", by decide +kernel⟩
def rack : ResourceClass := ⟨"rack", by decide +kernel⟩
def powerDomain : ResourceClass := ⟨"power-domain", by decide +kernel⟩
def socket : ResourceClass := ⟨"socket", by decide +kernel⟩
def numa : ResourceClass := ⟨"numa", by decide +kernel⟩
def cpu : ResourceClass := ⟨"cpu", by decide +kernel⟩
def memory : ResourceClass := ⟨"memory", by decide +kernel⟩
def pcieRoot : ResourceClass := ⟨"pcie-root", by decide +kernel⟩
def gpu : ResourceClass := ⟨"gpu", by decide +kernel⟩
def nic : ResourceClass := ⟨"nic", by decide +kernel⟩
def nvme : ResourceClass := ⟨"nvme", by decide +kernel⟩
def region : ResourceClass := ⟨"region", by decide +kernel⟩
def datacenter : ResourceClass := ⟨"datacenter", by decide +kernel⟩
def dataObject : ResourceClass := ⟨"data-object", by decide +kernel⟩
end ResourceClass

namespace CapacityDimension
def count : CapacityDimension := ⟨"count", by decide +kernel⟩
def bytes : CapacityDimension := ⟨"bytes", by decide +kernel⟩
end CapacityDimension

end Archon.Kernel
