import Mainframe.Text.Hex
import Mainframe.Translation.Fault

/-! The conditions a processor can find itself in, and the actions they call for. There are
sixteen monitor and sixteen user conditions, each with a bit in a register of its class;
ordinal 0 is the leftmost bit. -/

set_option autoImplicit false

namespace Mainframe

/-- What becomes of a recorded condition, from the mildest to the most severe. A stacked
condition waits in its register. -/
inductive Action where
  | proceed
  | stack
  | trap
  | exchange
  | halt
  deriving DecidableEq

namespace Action

def severity : Action → Nat
  | .proceed => 0
  | .stack => 1
  | .trap => 2
  | .exchange => 3
  | .halt => 4

def name : Action → String
  | .proceed => "Continue"
  | .stack => "Stack"
  | .trap => "Trap"
  | .exchange => "Exchange"
  | .halt => "Halt"

instance : LE Action := ⟨fun left right => left.severity ≤ right.severity⟩

instance (left right : Action) : Decidable (left ≤ right) :=
  inferInstanceAs (Decidable (left.severity ≤ right.severity))

instance : Max Action := ⟨fun left right => if left ≤ right then right else left⟩

theorem severity_max (left right : Action) :
    (max left right).severity = max left.severity right.severity := by
  cases left <;> cases right <;> rfl

def Interrupts (action : Action) : Prop := .trap ≤ action

instance (action : Action) : Decidable action.Interrupts := inferInstanceAs (Decidable (_ ≤ _))

end Action

inductive MonitorCondition where
  | detectedUncorrectableError
  | notAssigned
  | shortWarning
  | instructionSpecification
  | addressSpecification
  | exchangeRequest
  | accessViolation
  | environmentSpecification
  | externalInterrupt
  | pageTableSearchWithoutFind
  | systemCall
  | systemIntervalTimer
  | invalidSegmentRingZero
  | outwardCallInwardReturn
  | softErrorLog
  | trapException
  deriving DecidableEq

inductive UserCondition where
  | privilegedInstruction
  | unimplementedInstruction
  | freeFlag
  | processIntervalTimer
  | interRingPop
  | criticalFrameFlag
  | keypoint
  | divideFault
  | debug
  | arithmeticOverflow
  | exponentOverflow
  | exponentUnderflow
  | floatingLossOfSignificance
  | floatingIndefinite
  | arithmeticLossOfSignificance
  | invalidDecimalData
  deriving DecidableEq

abbrev ConditionBits := BitVec 16

def ordinalBit (ordinal : Fin 16) : ConditionBits := 0x8000 >>> ordinal.val

namespace MonitorCondition

def ordinal : MonitorCondition → Fin 16
  | .detectedUncorrectableError => 0
  | .notAssigned => 1
  | .shortWarning => 2
  | .instructionSpecification => 3
  | .addressSpecification => 4
  | .exchangeRequest => 5
  | .accessViolation => 6
  | .environmentSpecification => 7
  | .externalInterrupt => 8
  | .pageTableSearchWithoutFind => 9
  | .systemCall => 10
  | .systemIntervalTimer => 11
  | .invalidSegmentRingZero => 12
  | .outwardCallInwardReturn => 13
  | .softErrorLog => 14
  | .trapException => 15

def all : List MonitorCondition :=
  [.detectedUncorrectableError, .notAssigned, .shortWarning, .instructionSpecification,
    .addressSpecification, .exchangeRequest, .accessViolation, .environmentSpecification,
    .externalInterrupt, .pageTableSearchWithoutFind, .systemCall, .systemIntervalTimer,
    .invalidSegmentRingZero, .outwardCallInwardReturn, .softErrorLog, .trapException]

def ofOrdinal (ordinal : Fin 16) : MonitorCondition := all.get ordinal

@[simp] theorem ofOrdinal_ordinal (condition : MonitorCondition) :
    ofOrdinal condition.ordinal = condition := by
  cases condition <;> rfl

@[simp] theorem ordinal_ofOrdinal (ordinal : Fin 16) : (ofOrdinal ordinal).ordinal = ordinal := by
  revert ordinal
  decide

theorem mem_all (condition : MonitorCondition) : condition ∈ all := by
  cases condition <;> decide

def name : MonitorCondition → String
  | .detectedUncorrectableError => "DetectedUncorrectableError"
  | .notAssigned => "NotAssigned"
  | .shortWarning => "ShortWarning"
  | .instructionSpecification => "InstructionSpecification"
  | .addressSpecification => "AddressSpecification"
  | .exchangeRequest => "ExchangeRequest"
  | .accessViolation => "AccessViolation"
  | .environmentSpecification => "EnvironmentSpecification"
  | .externalInterrupt => "ExternalInterrupt"
  | .pageTableSearchWithoutFind => "PageTableSearchWithoutFind"
  | .systemCall => "SystemCall"
  | .systemIntervalTimer => "SystemIntervalTimer"
  | .invalidSegmentRingZero => "InvalidSegmentRingZero"
  | .outwardCallInwardReturn => "OutwardCallInwardReturn"
  | .softErrorLog => "SoftErrorLog"
  | .trapException => "TrapException"

def ofFault : FaultKind → MonitorCondition
  | .addressSpecification => .addressSpecification
  | .invalidSegment => .invalidSegmentRingZero
  | .accessViolation => .accessViolation
  | .pageFault => .pageTableSearchWithoutFind

end MonitorCondition

namespace UserCondition

def ordinal : UserCondition → Fin 16
  | .privilegedInstruction => 0
  | .unimplementedInstruction => 1
  | .freeFlag => 2
  | .processIntervalTimer => 3
  | .interRingPop => 4
  | .criticalFrameFlag => 5
  | .keypoint => 6
  | .divideFault => 7
  | .debug => 8
  | .arithmeticOverflow => 9
  | .exponentOverflow => 10
  | .exponentUnderflow => 11
  | .floatingLossOfSignificance => 12
  | .floatingIndefinite => 13
  | .arithmeticLossOfSignificance => 14
  | .invalidDecimalData => 15

def all : List UserCondition :=
  [.privilegedInstruction, .unimplementedInstruction, .freeFlag, .processIntervalTimer,
    .interRingPop, .criticalFrameFlag, .keypoint, .divideFault, .debug, .arithmeticOverflow,
    .exponentOverflow, .exponentUnderflow, .floatingLossOfSignificance, .floatingIndefinite,
    .arithmeticLossOfSignificance, .invalidDecimalData]

def ofOrdinal (ordinal : Fin 16) : UserCondition := all.get ordinal

@[simp] theorem ofOrdinal_ordinal (condition : UserCondition) :
    ofOrdinal condition.ordinal = condition := by
  cases condition <;> rfl

@[simp] theorem ordinal_ofOrdinal (ordinal : Fin 16) : (ofOrdinal ordinal).ordinal = ordinal := by
  revert ordinal
  decide

theorem mem_all (condition : UserCondition) : condition ∈ all := by
  cases condition <;> decide

def name : UserCondition → String
  | .privilegedInstruction => "PrivilegedInstruction"
  | .unimplementedInstruction => "UnimplementedInstruction"
  | .freeFlag => "FreeFlag"
  | .processIntervalTimer => "ProcessIntervalTimer"
  | .interRingPop => "InterRingPop"
  | .criticalFrameFlag => "CriticalFrameFlag"
  | .keypoint => "Keypoint"
  | .divideFault => "DivideFault"
  | .debug => "Debug"
  | .arithmeticOverflow => "ArithmeticOverflow"
  | .exponentOverflow => "ExponentOverflow"
  | .exponentUnderflow => "ExponentUnderflow"
  | .floatingLossOfSignificance => "FpLossOfSignificance"
  | .floatingIndefinite => "FpIndefinite"
  | .arithmeticLossOfSignificance => "ArithmeticLossOfSignificance"
  | .invalidDecimalData => "InvalidBdpData"

end UserCondition

inductive Condition where
  | monitor (condition : MonitorCondition)
  | user (condition : UserCondition)
  deriving DecidableEq

namespace Condition

def isMonitor : Condition → Bool
  | .monitor _ => true
  | .user _ => false

def ordinal : Condition → Fin 16
  | .monitor condition => condition.ordinal
  | .user condition => condition.ordinal

def bit (condition : Condition) : ConditionBits := ordinalBit condition.ordinal

def all : List Condition := MonitorCondition.all.map .monitor ++ UserCondition.all.map .user

theorem mem_all (condition : Condition) : condition ∈ all := by
  cases condition with
  | monitor condition => simp [all, condition.mem_all]
  | user condition => simp [all, condition.mem_all]

/-- The register, the number of the condition's bit in its word, and the name. -/
def text : Condition → String
  | .monitor condition => "MCR" ++ toString (48 + condition.ordinal.val) ++ " " ++ condition.name
  | .user condition => "UCR" ++ toString (48 + condition.ordinal.val) ++ " " ++ condition.name

def ofFault (fault : TranslationFault) : Condition := .monitor (.ofFault fault.kind)

end Condition

end Mainframe
