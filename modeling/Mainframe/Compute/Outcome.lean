import Mainframe.Processor.Conditions

/-! What a computation on the registers comes to: the contents of one register, or a condition in
their place. -/

set_option autoImplicit false

namespace Mainframe

inductive Outcome where
  | word (number : RegisterNumber) (value : Word)
  | address (number : RegisterNumber) (value : VirtualAddress)
  /-- There is no result; the instruction completes all the same. -/
  | missing (condition : UserCondition)
  /-- The instruction is not a proper one. -/
  | refused (condition : MonitorCondition)
  deriving DecidableEq

namespace Outcome

def ofResult (number : RegisterNumber) : Except UserCondition Word → Outcome
  | .ok value => .word number value
  | .error condition => .missing condition

end Outcome

def Execution.settle : Outcome → Execution Unit
  | .word number value => modify fun processor => processor.withWordRegister number value
  | .address number value => modify fun processor => processor.withAddressRegister number value
  | .missing condition => Routine.raise (.user condition)
  | .refused condition => monitorFault condition

end Mainframe
