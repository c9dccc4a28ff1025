import Mainframe.Activation.Call
import Mainframe.Compute.Numbers

/-! Transfers of control: branches, calls of code in the same and in other segments, and
returns. -/

set_option autoImplicit false

namespace Mainframe

namespace Processor

def displacedTarget (processor : Processor) (instruction : Instruction) : VirtualAddress :=
  processor.currentAddress.offset (2 * instruction.signedQ)

/-- The condition with ordinal j: a monitor condition if k is odd, a user condition if not. -/
def conditionOperand (instruction : Instruction) : Condition :=
  if instruction.k.getLsbD 0 then .monitor (.ofOrdinal instruction.j.toFin)
  else .user (.ofOrdinal instruction.j.toFin)

end Processor

namespace Execution

def goTo (target : VirtualAddress) : Execution Unit :=
  modify fun processor => { processor with nextAddress := target }

def branchIf (taken : Bool) (instruction : Instruction) : Execution Unit := do
  if taken then goTo ((← get).displacedTarget instruction)

/-- Branch if Xj is in a relation to Xk. Operands without an order leave their condition and the
branch is not taken. -/
def branch (reading : Reading) (relation : Relation) (instruction : Instruction) :
    Execution Unit := do
  match (← get).registerOrder instruction reading with
  | .ok order => branchIf (relation.holds order) instruction
  | .error condition => Routine.raise (.user condition)

def branchCounting (instruction : Instruction) : Execution Unit := do
  modify fun processor =>
    processor.withWordRegister instruction.k (processor.wordRegister instruction.k + 1)
  -- If j and k are the same, Xj has been counted up as well.
  let processor ← get
  branchIf ((processor.wordRegister instruction.k).slt (processor.wordRegister instruction.j))
    instruction

def branchSegment (instruction : Instruction) : Execution Unit := do
  let processor ← get
  branchIf ((processor.addressRegister instruction.j).segment ==
    (processor.addressRegister instruction.k).segment) instruction

/-- Clear a condition, and branch if it held. Monitor conditions are for monitor mode only. -/
def branchCondition (instruction : Instruction) : Execution Unit := do
  let processor ← get
  let condition := Processor.conditionOperand instruction
  if condition.isMonitor && !processor.monitorMode then userFault .privilegedInstruction
  set (processor.withoutCondition condition)
  branchIf (processor.holds condition) instruction

def branchRelative (instruction : Instruction) : Execution Unit := do
  let processor ← get
  goTo (processor.currentAddress.offset
    (2 * Word.rightSigned (processor.wordRegister instruction.k)))

def branchDirect (instruction : Instruction) : Execution Unit := do
  let processor ← get
  goTo (processor.ringAdjusted ((processor.addressRegister instruction.j).offset
    (Word.rightSigned (processor.wordRegister instruction.k))))

def callRelative (instruction : Instruction) : Execution Unit := do
  let processor ← get
  call instruction.length { target := processor.displacedTarget instruction, binding := none }
    (processor.addressRegister instruction.k)

def callSegment (instruction : Instruction) : Execution Unit := do
  let processor ← get
  let entry ← resolveEntry (processor.indexedOperand instruction 8)
    processor.currentAddress.ring.toNat true
  call instruction.length entry (processor.addressRegister instruction.k)

def transfer (operation : Transfer) (instruction : Instruction) : Execution Unit :=
  match operation with
  | .branch reading relation => branch reading relation instruction
  | .branchCounting => branchCounting instruction
  | .branchSegment => branchSegment instruction
  | .branchCondition => branchCondition instruction
  | .branchRelative => branchRelative instruction
  | .branchDirect => branchDirect instruction
  | .callRelative => callRelative instruction
  | .callSegment => callSegment instruction
  | .returnFromCall => returnFromCall
  | .popFrame => popFrame

end Execution

end Mainframe
