import Mainframe.Compute.Operand
import Mainframe.FloatingPoint.Arithmetic

/-! Arithmetic and comparison of word registers, as integers and as floating point numbers. A
missing result is reported by the condition that goes with its cause. -/

set_option autoImplicit false

namespace Mainframe

def ArithmeticFault.condition : ArithmeticFault → UserCondition
  | .overflow => .arithmeticOverflow
  | .divideByZero => .divideFault

def FloatFault.condition : FloatFault → UserCondition
  | .indefinite => .floatingIndefinite
  | .exponentOverflow => .exponentOverflow
  | .exponentUnderflow => .exponentUnderflow
  | .divideByZero => .divideFault
  | .integerOverflow => .arithmeticOverflow

namespace IntegerOperator

/-- The new contents of a register whose old ones are `destination`. Arithmetic on right halves
keeps the left half. -/
def result (operator : IntegerOperator) (extent : Extent) (left right destination : Word) :
    Except ArithmeticFault Word :=
  match extent with
  | .word => operator.apply left right
  | .rightHalf =>
    (operator.apply (Word.rightHalf left) (Word.rightHalf right)).map
      (Word.withRightHalf destination)

end IntegerOperator

def FloatOperator.apply : FloatOperator → Word → Word → Except FloatFault Word
  | .add => FloatingPoint.add
  | .subtract => FloatingPoint.subtract
  | .multiply => FloatingPoint.multiply
  | .divide => FloatingPoint.divide

namespace Processor

def integerOperands (processor : Processor) (instruction : Instruction) :
    ArithmeticSource → Word × Word
  | .register => (processor.wordRegister instruction.k, processor.wordRegister instruction.j)
  | .number => (processor.wordRegister instruction.k, instruction.j.setWidth 64)
  | .displacement => (processor.wordRegister instruction.j, instruction.q.signExtend 64)

def integerResult (processor : Processor) (instruction : Instruction) (operator : IntegerOperator)
    (extent : Extent) (source : ArithmeticSource) : Except ArithmeticFault Word :=
  let (left, right) := processor.integerOperands instruction source
  operator.result extent left right (processor.wordRegister instruction.k)

def registerOrder (processor : Processor) (instruction : Instruction) :
    Reading → Except UserCondition Ordering
  | .rightHalf =>
    .ok (compare (Word.rightSigned (processor.wordRegister instruction.j))
      (Word.rightSigned (processor.wordRegister instruction.k)))
  | .word =>
    .ok (compare (processor.wordRegister instruction.j).toInt
      (processor.wordRegister instruction.k).toInt)
  | .floating =>
    (FloatingPoint.order (processor.wordRegister instruction.j)
      (processor.wordRegister instruction.k)).mapError FloatFault.condition

end Processor

end Mainframe
