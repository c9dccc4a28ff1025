import Mainframe.Compute.Operand
import Mainframe.Word.Field
import Mainframe.Word.Shift

/-! Computations on the bits of words: logic, shifts and fields. -/

set_option autoImplicit false

namespace Mainframe

def LogicalOperator.apply (operator : LogicalOperator) (destination source : Word) : Word :=
  match operator with
  | .inclusiveOr => destination ||| source
  | .exclusiveOr => destination ^^^ source
  | .conjunction => destination &&& source
  | .complement => ~~~ source
  | .inhibit => destination &&& ~~~ source

namespace Word

/-- The last bit tells whether the last bytes of two words are equal; the others stay. -/
def marked (word left right : Word) : Word :=
  word.extractLsb' 1 63 ++ BitVec.ofBool (byteFrom left 0 == byteFrom right 0)

/-- Logical shift of the right half alone, which a count of its length or more clears. -/
def shiftRightHalf (word : Word) (count : Int) : HalfWord :=
  if count.natAbs < 32 then rightHalf (shiftLogical ((rightHalf word).setWidth 64) count) else 0

end Word

def ShiftKind.apply (kind : ShiftKind) (destination source : Word) (count : Int) : Word :=
  match kind with
  | .circular => Word.shiftCircular source count
  | .word => Word.shiftArithmetic source count
  | .rightHalf => Word.withRightHalf destination (Word.shiftRightHalf source count)

namespace Processor

def shiftCount (processor : Processor) (instruction : Instruction) : Int :=
  (BitVec.ofInt 8 (processor.indexPlusD instruction)).toInt

def fieldOperand (processor : Processor) (instruction : Instruction) : Option BitField :=
  BitField.ofDescriptor (BitVec.ofInt 32 (processor.indexPlusD instruction))

end Processor

end Mainframe
