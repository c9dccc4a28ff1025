import Mainframe.Compute.Numbers
import Mainframe.Compute.Outcome
import Mainframe.Compute.Patterns

/-! The outcome of every computation, as a function of the state before it. -/

set_option autoImplicit false

namespace Mainframe

namespace Processor

def fieldOutcome (processor : Processor) (instruction : Instruction) (value : BitField → Word) :
    Outcome :=
  match processor.fieldOperand instruction with
  | some field => .word instruction.k (value field)
  | none => .refused .instructionSpecification

/-- All zeros, all ones or the sign of X1, as j is 0, 1 or 2. -/
def fillOutcome (processor : Processor) (instruction : Instruction) : Outcome :=
  match instruction.j.toNat with
  | 0 => .word instruction.k 0
  | 1 => .word instruction.k Word.allOnes
  | 2 => .word instruction.k (if (processor.wordRegister 1).msb then Word.allOnes else 0)
  | _ => .refused .instructionSpecification

end Processor

namespace Computation

def outcome (computation : Computation) (processor : Processor) (instruction : Instruction) :
    Outcome :=
  let xj := processor.wordRegister instruction.j
  let xk := processor.wordRegister instruction.k
  let aj := processor.addressRegister instruction.j
  let ak := processor.addressRegister instruction.k
  match computation with
  | .integer operator extent source =>
    .ofResult instruction.k ((processor.integerResult instruction operator extent source).mapError
      ArithmeticFault.condition)
  | .floating operator =>
    .ofResult instruction.k ((operator.apply xk xj).mapError FloatFault.condition)
  | .integerToFloating =>
    .ofResult instruction.k ((FloatingPoint.ofInteger xj).mapError FloatFault.condition)
  | .floatingToInteger =>
    .ofResult instruction.k ((FloatingPoint.toInteger xj).mapError FloatFault.condition)
  | .compare reading => .ofResult 1 ((processor.registerOrder instruction reading).map orderWord)
  | .logical operator => .word instruction.k (operator.apply xk xj)
  | .mark => .word instruction.k (Word.marked xk (processor.wordRegister 1) xj)
  | .shift kind => .word instruction.k (kind.apply xk xj (processor.shiftCount instruction))
  | .fieldMask => processor.fieldOutcome instruction (·.mask)
  | .isolateField => processor.fieldOutcome instruction (·.isolate xj)
  | .insertField => processor.fieldOutcome instruction (·.insert xk xj)
  | .enterFill => processor.fillOutcome instruction
  | .enterPositive => .word instruction.k (instruction.j.setWidth 64)
  | .enterNegative => .word instruction.k (-(instruction.j.setWidth 64))
  | .enterLogical => .word 0 ((instruction.j ++ instruction.k).setWidth 64)
  | .enterConstant => .word instruction.k ((instruction.j ++ instruction.q).signExtend 64)
  | .enterSigned => .word instruction.k (instruction.q.signExtend 64)
  | .enterLong => .word 0 ((instruction.j ++ instruction.k ++ instruction.q).signExtend 64)
  | .copyFreeRunning => .word instruction.k processor.freeRunning
  | .copyAddress => .address instruction.k (processor.ringAdjusted aj)
  | .wordToAddress => .address instruction.k (processor.ringAdjusted (.ofWord xj))
  | .addressToWord => .word instruction.k aj.toWord
  | .copyRightHalf => .word instruction.k (Word.withRightHalf xk (Word.rightHalf xj))
  | .copyWord => .word instruction.k xj
  | .addWordToAddress => .address instruction.k (ak.offset (Word.rightSigned xj))
  | .addDisplacementToAddress => .address instruction.k (aj.offset instruction.signedQ)
  | .addToProgramAddress =>
    .address instruction.k
      (processor.currentAddress.offset (Word.rightSigned xj + instruction.signedQ))
  | .addIndexedToAddress => .address instruction.k (processor.indexedOperand instruction 1)

end Computation

def Execution.compute (computation : Computation) (instruction : Instruction) :
    Execution Unit := do
  settle (computation.outcome (← get) instruction)

end Mainframe
