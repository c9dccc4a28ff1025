import Mainframe.Compute.Computation
import Mainframe.Execute.Control
import Mainframe.Execute.Edit
import Mainframe.Execute.Storage
import Mainframe.Execute.Transfer
import Mainframe.Instruction.Opcode

/-! Carrying out an instruction of any class. -/

set_option autoImplicit false

namespace Mainframe.Execution

def operate (operation : Operation) (instruction : Instruction) : Execution Unit :=
  match operation with
  | .compute operation => compute operation instruction
  | .transfer operation => transfer operation instruction
  | .storage operation => storage operation instruction
  | .block operation => block operation instruction
  | .control operation => control operation instruction

def execute (instruction : Instruction) : Execution Unit :=
  match Operation.ofOpcode instruction.opcode with
  | some operation => operate operation instruction
  | none => userFault .unimplementedInstruction

end Mainframe.Execution
