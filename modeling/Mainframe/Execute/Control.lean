import Mainframe.Compute.Operand
import Mainframe.Processor.StateRegister
import Mainframe.Translation.Search

/-! Governing the processor: stopping it, changing to the monitor and back, interrupting others,
its state registers, the page table, and keypoints. -/

set_option autoImplicit false

namespace Mainframe

namespace Processor

def mayUse (processor : Processor) (level : ExecutePrivilege) : Bool :=
  processor.monitorMode || decide (processor.translation.executePrivilege.Includes level)

def watchesKeypoint (processor : Processor) (instruction : Instruction) : Bool :=
  processor.trapControl.keypoints && processor.keypointMask.getMsbD instruction.j.toNat

def keypointOperand (processor : Processor) (instruction : Instruction) : HalfWord :=
  Word.rightHalf (processor.wordRegister instruction.k) + instruction.q.setWidth 32

end Processor

namespace Execution

def requirePrivilege (level : ExecutePrivilege) : Execution Unit := do
  if !(← get).mayUse level then userFault .privilegedInstruction

def halt : Execution Unit := do
  requirePrivilege .globalPrivileged
  modify fun processor => processor.escalate .halt

def exchange : Execution Unit := do
  if (← get).monitorMode then modify fun processor => processor.escalate .exchange
  else Routine.raise (.monitor .systemCall)

def interruptProcessor (instruction : Instruction) : Execution Unit := do
  requirePrivilege .localPrivileged
  modify fun processor => { processor with
    interruptRequest := some (Word.rightHalf (processor.wordRegister instruction.k)).toNat }

def stateRegisterOperand (instruction : Instruction) : Execution StateRegister := do
  match StateRegister.ofNumber (Word.byteFrom ((← get).wordRegister instruction.j) 0) with
  | none => monitorFault .instructionSpecification
  | some register =>
    if register.isPrivileged then requirePrivilege .localPrivileged
    return register

def readStateRegister (instruction : Instruction) : Execution Unit := do
  let register ← stateRegisterOperand instruction
  modify fun processor =>
    processor.withWordRegister instruction.k (processor.stateRegister register)

def writeStateRegister (instruction : Instruction) : Execution Unit := do
  let register ← stateRegisterOperand instruction
  Routine.setStateRegister register ((← get).wordRegister instruction.k)

/-- Look up the page that holds Aj, and leave in Xk what is made of it. An address that names no
segment has no page. -/
def askPageTable (answer : Option PageLookup → Word) (instruction : Instruction) :
    Execution Unit := do
  requirePrivilege .localPrivileged
  let processor ← get
  let found ← processor.translation.probe (processor.addressRegister instruction.j)
  let lookup := match found with
    | .ok lookup => lookup
    | .error _ => none
  modify fun processor => processor.withWordRegister instruction.k (answer lookup)

def testPage : Instruction → Execution Unit :=
  askPageTable fun lookup => (lookup.map (·.entry.toWord)).getD 0

def locatePage : Instruction → Execution Unit :=
  askPageTable fun lookup => (lookup.map (·.index.setWidth 64)).getD Word.allOnes

def keypoint (instruction : Instruction) : Execution Unit := do
  let processor ← get
  let code := processor.keypointOperand instruction
  Routine.report (.keypoint instruction.j code)
  if processor.watchesKeypoint instruction then
    set { processor with keypointCode := (instruction.j ++ code).setWidth 64 }
    Routine.raise (.user .keypoint)

/-- No address translation is kept that could be purged, memory is always synchronized, and none
of the special algorithms is provided. -/
def control (operation : Control) (instruction : Instruction) : Execution Unit :=
  match operation with
  | .halt => halt
  | .synchronize => return
  | .exchange => exchange
  | .interruptProcessor => interruptProcessor instruction
  | .readStateRegister => readStateRegister instruction
  | .writeStateRegister => writeStateRegister instruction
  | .purge => requirePrivilege .localPrivileged
  | .testPage => testPage instruction
  | .locatePage => locatePage instruction
  | .keypoint => keypoint instruction
  | .executeAlgorithm => monitorFault .instructionSpecification

end Execution

end Mainframe
