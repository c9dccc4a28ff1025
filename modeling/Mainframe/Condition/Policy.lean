import Mainframe.Condition.Basic

/-! The fixed policy of each condition: whether the instruction that raised it counts as
completed, where execution resumes, and which action the masks and modes of the processor
select. -/

set_option autoImplicit false

namespace Mainframe

structure ByTrapEnable where
  enabled : Action
  disabled : Action
  deriving DecidableEq

namespace ByTrapEnable

def always (action : Action) : ByTrapEnable := ⟨action, action⟩

def select (choice : ByTrapEnable) (trapEnabled : Bool) : Action :=
  if trapEnabled then choice.enabled else choice.disabled

end ByTrapEnable

structure Policy where
  completes : Bool
  /-- On an action that interrupts, resume at the instruction that raised the condition. -/
  retainsAddress : Bool
  unmasked : Action
  job : ByTrapEnable
  monitor : ByTrapEnable
  deriving DecidableEq

namespace Policy

def action (policy : Policy) (selected monitorMode trapEnabled : Bool) : Action :=
  if selected then
    (if monitorMode then policy.monitor else policy.job).select trapEnabled
  else policy.unmasked

/-- Errors found in an instruction, which is resumed once the error is handled. -/
def monitorError : Policy where
  completes := false
  retainsAddress := true
  unmasked := .halt
  job := .always .exchange
  monitor := ⟨.trap, .halt⟩

def fatalError : Policy where
  completes := false
  retainsAddress := true
  unmasked := .halt
  job := .always .exchange
  monitor := .always .halt

def monitorInterrupt : Policy where
  completes := true
  retainsAddress := false
  unmasked := .stack
  job := .always .exchange
  monitor := ⟨.trap, .stack⟩

def notAssigned : Policy where
  completes := true
  retainsAddress := false
  unmasked := .proceed
  job := .always .proceed
  monitor := .always .proceed

def exchangeRequest : Policy where
  completes := true
  retainsAddress := false
  unmasked := .stack
  job := .always .exchange
  monitor := .always .stack

def systemCall : Policy where
  completes := true
  retainsAddress := false
  unmasked := .exchange
  job := .always .exchange
  monitor := ⟨.trap, .halt⟩

def userFault : Policy where
  completes := false
  retainsAddress := true
  unmasked := .trap
  job := ⟨.trap, .exchange⟩
  monitor := ⟨.trap, .halt⟩

/-- Arithmetic without a result: the instruction completes and leaves its destination. -/
def arithmeticFault : Policy where
  completes := true
  retainsAddress := false
  unmasked := .proceed
  job := ⟨.trap, .stack⟩
  monitor := ⟨.trap, .halt⟩

def userNote : Policy where
  completes := true
  retainsAddress := false
  unmasked := .proceed
  job := ⟨.trap, .stack⟩
  monitor := ⟨.trap, .stack⟩

def processTimer : Policy where
  completes := true
  retainsAddress := false
  unmasked := .stack
  job := ⟨.trap, .stack⟩
  monitor := .always .stack

end Policy

def MonitorCondition.policy : MonitorCondition → Policy
  | .detectedUncorrectableError | .trapException => .fatalError
  | .notAssigned => .notAssigned
  | .shortWarning | .externalInterrupt | .systemIntervalTimer | .softErrorLog => .monitorInterrupt
  | .instructionSpecification | .addressSpecification | .accessViolation
  | .environmentSpecification | .pageTableSearchWithoutFind | .invalidSegmentRingZero
  | .outwardCallInwardReturn => .monitorError
  | .exchangeRequest => .exchangeRequest
  | .systemCall => .systemCall

def UserCondition.policy : UserCondition → Policy
  | .privilegedInstruction | .unimplementedInstruction | .interRingPop | .criticalFrameFlag =>
    .userFault
  | .freeFlag | .keypoint | .debug => .userNote
  | .processIntervalTimer => .processTimer
  | .divideFault | .arithmeticOverflow | .exponentOverflow | .exponentUnderflow
  | .floatingLossOfSignificance | .floatingIndefinite | .arithmeticLossOfSignificance
  | .invalidDecimalData => .arithmeticFault

def Condition.policy : Condition → Policy
  | .monitor condition => condition.policy
  | .user condition => condition.policy

end Mainframe
