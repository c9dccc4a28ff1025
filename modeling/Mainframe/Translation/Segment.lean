import Mainframe.Address

/-! Segment descriptors: who may execute, read and write a segment, and the identifier under
which its pages are entered in the page table. -/

set_option autoImplicit false

namespace Mainframe

inductive ExecutePrivilege where
  | nonExecutable
  | nonPrivileged
  | localPrivileged
  | globalPrivileged
  deriving DecidableEq

namespace ExecutePrivilege

def ofBits (bits : BitVec 2) : ExecutePrivilege :=
  match bits.toNat with
  | 0 => .nonExecutable
  | 1 => .nonPrivileged
  | 2 => .localPrivileged
  | _ => .globalPrivileged

def bits : ExecutePrivilege → BitVec 2
  | .nonExecutable => 0
  | .nonPrivileged => 1
  | .localPrivileged => 2
  | .globalPrivileged => 3

@[simp] theorem ofBits_bits (privilege : ExecutePrivilege) : ofBits privilege.bits = privilege := by
  cases privilege <;> rfl

@[simp] theorem bits_ofBits (bits : BitVec 2) : (ofBits bits).bits = bits := by
  revert bits
  decide

def Includes (granted required : ExecutePrivilege) : Prop :=
  required.bits.toNat ≤ granted.bits.toNat

instance (granted required : ExecutePrivilege) : Decidable (granted.Includes required) :=
  inferInstanceAs (Decidable (_ ≤ _))

end ExecutePrivilege

inductive Protection where
  | noAccess
  | keyLock
  | unlocked
  | binding
  deriving DecidableEq

namespace Protection

def ofBits (bits : BitVec 2) : Protection :=
  match bits.toNat with
  | 0 => .noAccess
  | 1 => .keyLock
  | 2 => .unlocked
  | _ => .binding

def bits : Protection → BitVec 2
  | .noAccess => 0
  | .keyLock => 1
  | .unlocked => 2
  | .binding => 3

@[simp] theorem ofBits_bits (level : Protection) : ofBits level.bits = level := by
  cases level <;> rfl

@[simp] theorem bits_ofBits (bits : BitVec 2) : (ofBits bits).bits = bits := by
  revert bits
  decide

/-- A key is needed only where the level asks for one. -/
def permits (level : Protection) (keyMatches : Bool) : Bool :=
  match level with
  | .noAccess => false
  | .keyLock => keyMatches
  | .unlocked | .binding => true

end Protection

/-- Of the rings, `r1` is the lowest that may execute and the highest that may write, and `r2`
the highest that may execute or read. -/
@[ext] structure SegmentDescriptor where
  execute : ExecutePrivilege
  read : Protection
  write : Protection
  valid : Bool
  r1 : BitVec 8
  r2 : BitVec 8
  asid : BitVec 16
  lock : BitVec 8
  deriving DecidableEq

namespace SegmentDescriptor

def ofWord (word : Word) : SegmentDescriptor where
  execute := .ofBits (word.extractLsb' 62 2)
  read := .ofBits (word.extractLsb' 60 2)
  write := .ofBits (word.extractLsb' 58 2)
  valid := word.getLsbD 57
  r1 := (word.extractLsb' 52 4).setWidth 8
  r2 := (word.extractLsb' 48 4).setWidth 8
  asid := word.extractLsb' 32 16
  lock := (word.extractLsb' 24 6).setWidth 8

def toWord (descriptor : SegmentDescriptor) : Word :=
  descriptor.execute.bits ++ descriptor.read.bits ++ descriptor.write.bits ++
    BitVec.ofBool descriptor.valid ++ (0 : BitVec 1) ++
    descriptor.r1.setWidth 4 ++ descriptor.r2.setWidth 4 ++ descriptor.asid ++
    (0 : BitVec 2) ++ descriptor.lock.setWidth 6 ++ (0 : BitVec 24)

/-- Key zero opens every lock, and lock zero opens to every key. -/
def keyMatches (descriptor : SegmentDescriptor) (key : BitVec 8) : Bool :=
  key == 0 || descriptor.lock == 0 || key == descriptor.lock

def canExecute (descriptor : SegmentDescriptor) (ring : Ring) (key : BitVec 8) : Bool :=
  descriptor.execute != .nonExecutable && decide (descriptor.r1.toNat ≤ ring.toNat) &&
    decide (ring.toNat ≤ descriptor.r2.toNat) && descriptor.keyMatches key

def canRead (descriptor : SegmentDescriptor) (ring : Ring) (key : BitVec 8) : Bool :=
  decide (ring.toNat ≤ descriptor.r2.toNat) && descriptor.read.permits (descriptor.keyMatches key)

def canWrite (descriptor : SegmentDescriptor) (ring : Ring) (key : BitVec 8) : Bool :=
  decide (ring.toNat ≤ descriptor.r1.toNat) && descriptor.write.permits (descriptor.keyMatches key)

def isBindingSection (descriptor : SegmentDescriptor) : Bool := descriptor.read == .binding

end SegmentDescriptor

end Mainframe
