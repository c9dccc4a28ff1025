import Mainframe.Condition.Policy
import Mainframe.Instruction.Operation
import Mainframe.Legacy.Engine
import Mainframe.Translation.Unit

/-! The complete state of a processor. -/

set_option autoImplicit false

namespace Mainframe

structure Flags where
  criticalFrame : Bool
  onCondition : Bool
  deriving DecidableEq

namespace Flags

def clear : Flags := ⟨false, false⟩

def ofBits (bits : BitVec 16) : Flags := ⟨bits.getLsbD 15, bits.getLsbD 14⟩

def bits (flags : Flags) : BitVec 16 :=
  BitVec.ofBool flags.criticalFrame ++ BitVec.ofBool flags.onCondition ++ (0 : BitVec 14)

@[simp] theorem ofBits_bits (flags : Flags) : ofBits flags.bits = flags := by
  rcases flags with ⟨_ | _, _ | _⟩ <;> rfl

end Flags

structure TrapControl where
  enabled : Bool
  delayed : Bool
  keypoints : Bool
  deriving DecidableEq

namespace TrapControl

def ofBits (bits : BitVec 16) : TrapControl :=
  ⟨bits.getLsbD 15, bits.getLsbD 14, bits.getLsbD 13⟩

def bits (control : TrapControl) : BitVec 16 :=
  BitVec.ofBool control.enabled ++ BitVec.ofBool control.delayed ++
    BitVec.ofBool control.keypoints ++ (0 : BitVec 13)

@[simp] theorem ofBits_bits (control : TrapControl) : ofBits control.bits = control := by
  rcases control with ⟨_ | _, _ | _, _ | _⟩ <;> rfl

end TrapControl

inductive InstructionSet where
  | native
  | legacy (registers : LegacyRegisters)
  deriving DecidableEq

namespace InstructionSet

def isLegacy : InstructionSet → Bool
  | .native => false
  | .legacy _ => true

def virtualMachine : InstructionSet → BitVec 4
  | .native => 0
  | .legacy _ => 1

end InstructionSet

abbrev AddressRegisters := Vector VirtualAddress 16
abbrev WordRegisters := Vector Word 16

/-- The next instruction is the one at `p`. While an instruction is carried out,
`currentAddress` is its own address, and `nextAddress` and `nextKey` become `p` and the key when
it ends. Registers of the segment and page tables are in the translation unit. -/
structure Processor where
  number : Nat
  p : VirtualAddress
  key : Byte
  a : AddressRegisters
  x : WordRegisters
  virtualMachine : Byte
  flags : Flags
  trapControl : TrapControl
  userMask : ConditionBits
  monitorMask : ConditionBits
  userConditions : ConditionBits
  monitorConditions : ConditionBits
  monitorMode : Bool
  translation : TranslationUnit
  monitorPackage : HalfWord
  jobPackage : HalfWord
  processTimer : HalfWord
  systemTimer : HalfWord
  baseConstant : Word
  trapPointer : Word
  debugList : Word
  debugMask : BitVec 16
  keypointMask : BitVec 16
  keypointCode : Word
  lastProcessor : Byte
  largestRing : Byte
  stackTops : Vector VirtualAddress 15
  pending : Action
  instruction : Instruction
  currentAddress : VirtualAddress
  nextAddress : VirtualAddress
  nextKey : Byte
  stopped : Bool
  freeRunning : Word
  retired : Word
  interruptRequest : Option Nat
  instructionSet : InstructionSet
  engine : Option LegacyEngine

namespace Processor

def wordRegister (processor : Processor) (number : RegisterNumber) : Word :=
  processor.x[number.toFin]

def addressRegister (processor : Processor) (number : RegisterNumber) : VirtualAddress :=
  processor.a[number.toFin]

def withWordRegister (processor : Processor) (number : RegisterNumber) (word : Word) : Processor :=
  { processor with x := processor.x.set number.toNat word number.isLt }

def withAddressRegister (processor : Processor) (number : RegisterNumber)
    (address : VirtualAddress) : Processor :=
  { processor with a := processor.a.set number.toNat address number.isLt }

theorem wordRegister_withWordRegister (processor : Processor) (number other : RegisterNumber)
    (word : Word) :
    (processor.withWordRegister number word).wordRegister other =
      if number = other then word else processor.wordRegister other := by
  simp only [withWordRegister, wordRegister, Fin.getElem_fin, BitVec.val_toFin,
    Vector.getElem_set, BitVec.toNat_inj]

theorem addressRegister_withAddressRegister (processor : Processor)
    (number other : RegisterNumber) (address : VirtualAddress) :
    (processor.withAddressRegister number address).addressRegister other =
      if number = other then address else processor.addressRegister other := by
  simp only [withAddressRegister, addressRegister, Fin.getElem_fin, BitVec.val_toFin,
    Vector.getElem_set, BitVec.toNat_inj]

@[simp] theorem addressRegister_withWordRegister (processor : Processor)
    (number other : RegisterNumber) (word : Word) :
    (processor.withWordRegister number word).addressRegister other =
      processor.addressRegister other := rfl

@[simp] theorem wordRegister_withAddressRegister (processor : Processor)
    (number other : RegisterNumber) (address : VirtualAddress) :
    (processor.withAddressRegister number address).wordRegister other =
      processor.wordRegister other := rfl

def ring (processor : Processor) : Ring := processor.p.ring

/-- An address as the running instruction may pass it on: with at least the ring of that
instruction. -/
def ringAdjusted (processor : Processor) (address : VirtualAddress) : VirtualAddress :=
  address.ringAtLeast processor.currentAddress.ring.toNat

/-- The recorded top of a ring's stack; none is kept for ring zero. -/
def stackTop (processor : Processor) (ring : Nat) : VirtualAddress :=
  if 0 < ring then processor.stackTops[ring - 1]?.getD .zero else .zero

def withStackTop (processor : Processor) (ring : Nat) (top : VirtualAddress) : Processor :=
  if 0 < ring then { processor with stackTops := processor.stackTops.setIfInBounds (ring - 1) top }
  else processor

def restarted (processor : Processor) : Processor :=
  { processor with stopped := false, pending := .proceed }

end Processor

end Mainframe
