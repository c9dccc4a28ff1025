import Mainframe.Processor.Conditions

/-! State registers: the registers that programs read and write by number. Writing one that
decides which action a condition calls for raises the recorded conditions again. -/

set_option autoImplicit false

namespace Mainframe

inductive StateRegister where
  | userMask
  | userConditions
  | processTimer
  | flags
  | monitorMask
  | monitorConditions
  | systemTimer
  | pageTableAddress
  | pageTableLength
  | pageSizeMask
  | segmentTable
  | monitorPackage
  | jobPackage
  | baseConstant
  | trapPointer
  | debugList
  | processorIdentifier
  | keypointCode
  | trapControl
  | virtualMachine
  deriving DecidableEq

namespace StateRegister

def number : StateRegister → Byte
  | .userMask => 0x00
  | .userConditions => 0x01
  | .processTimer => 0x02
  | .flags => 0x03
  | .monitorMask => 0x10
  | .monitorConditions => 0x11
  | .systemTimer => 0x12
  | .pageTableAddress => 0x13
  | .pageTableLength => 0x14
  | .pageSizeMask => 0x15
  | .segmentTable => 0x16
  | .monitorPackage => 0x17
  | .jobPackage => 0x18
  | .baseConstant => 0x19
  | .trapPointer => 0x1A
  | .debugList => 0x1B
  | .processorIdentifier => 0x1C
  | .keypointCode => 0x1D
  | .trapControl => 0x1E
  | .virtualMachine => 0x1F

def all : List StateRegister :=
  [.userMask, .userConditions, .processTimer, .flags, .monitorMask, .monitorConditions,
    .systemTimer, .pageTableAddress, .pageTableLength, .pageSizeMask, .segmentTable,
    .monitorPackage, .jobPackage, .baseConstant, .trapPointer, .debugList,
    .processorIdentifier, .keypointCode, .trapControl, .virtualMachine]

def ofNumber (number : Byte) : Option StateRegister :=
  all.find? (fun register => register.number == number)

@[simp] theorem ofNumber_number (register : StateRegister) :
    ofNumber register.number = some register := by
  cases register <;> rfl

def isPrivileged (register : StateRegister) : Bool := decide (0x10 ≤ register.number.toNat)

end StateRegister

namespace Processor

/-- The contents, right justified. The segment table register has the limit above the address. -/
def stateRegister (processor : Processor) : StateRegister → Word
  | .userMask => processor.userMask.setWidth 64
  | .userConditions => processor.userConditions.setWidth 64
  | .processTimer => processor.processTimer.setWidth 64
  | .flags => processor.flags.bits.setWidth 64
  | .monitorMask => processor.monitorMask.setWidth 64
  | .monitorConditions => processor.monitorConditions.setWidth 64
  | .systemTimer => processor.systemTimer.setWidth 64
  | .pageTableAddress => processor.translation.pageTable.setWidth 64
  | .pageTableLength => processor.translation.pageTableLength.setWidth 64
  | .pageSizeMask => processor.translation.pageSizeMask.setWidth 64
  | .segmentTable =>
    (processor.translation.segmentLimit ++ processor.translation.segmentTable).setWidth 64
  | .monitorPackage => processor.monitorPackage.setWidth 64
  | .jobPackage => processor.jobPackage.setWidth 64
  | .baseConstant => processor.baseConstant
  | .trapPointer => processor.trapPointer
  | .debugList => processor.debugList
  | .processorIdentifier => processor.lastProcessor.setWidth 64
  | .keypointCode => processor.keypointCode
  | .trapControl => processor.trapControl.bits.setWidth 64
  | .virtualMachine => processor.virtualMachine.setWidth 64

/-- Bits beyond the width of the register are dropped. -/
def withStateRegister (processor : Processor) (register : StateRegister) (word : Word) :
    Processor :=
  match register with
  | .userMask => { processor with userMask := word.setWidth 16 }
  | .userConditions => { processor with userConditions := word.setWidth 16 }
  | .processTimer => { processor with processTimer := word.setWidth 32 }
  | .flags => { processor with flags := .ofBits (word.setWidth 16) }
  | .monitorMask => { processor with monitorMask := word.setWidth 16 }
  | .monitorConditions => { processor with monitorConditions := word.setWidth 16 }
  | .systemTimer => { processor with systemTimer := word.setWidth 32 }
  | .pageTableAddress => { processor with
      translation := { processor.translation with pageTable := word.setWidth 32 } }
  | .pageTableLength => { processor with
      translation := { processor.translation with pageTableLength := word.setWidth 8 } }
  | .pageSizeMask => { processor with
      translation := { processor.translation with pageSizeMask := word.setWidth 7 } }
  | .segmentTable => { processor with
      translation := { processor.translation with
        segmentTable := word.extractLsb' 0 32
        segmentLimit := word.extractLsb' 32 12 } }
  | .monitorPackage => { processor with monitorPackage := word.setWidth 32 }
  | .jobPackage => { processor with jobPackage := word.setWidth 32 }
  | .baseConstant => { processor with baseConstant := word }
  | .trapPointer => { processor with trapPointer := (word.setWidth 48).setWidth 64 }
  | .debugList => { processor with debugList := word }
  | .processorIdentifier => { processor with lastProcessor := word.setWidth 8 }
  | .keypointCode => { processor with keypointCode := word }
  | .trapControl => { processor with trapControl := .ofBits (word.setWidth 16) }
  | .virtualMachine => { processor with virtualMachine := (word.setWidth 4).setWidth 8 }

end Processor

def StateRegister.governsActions : StateRegister → Bool
  | .userConditions | .monitorConditions | .userMask | .monitorMask | .trapControl => true
  | _ => false

namespace Routine

/-- Write a state register. Changes to conditions, masks and traps take effect at once. -/
def setStateRegister (register : StateRegister) (word : Word) : Routine Unit := do
  modify fun processor => processor.withStateRegister register word
  if register.governsActions then rescan

end Routine

end Mainframe
