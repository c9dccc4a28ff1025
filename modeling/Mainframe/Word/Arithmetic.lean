import Mainframe.Word.Basic

/-! Signed integer arithmetic on words of any width. An operation whose exact result does not
fit, or whose divisor is zero, has no result. -/

set_option autoImplicit false

namespace Mainframe

inductive ArithmeticFault where
  | overflow
  | divideByZero
  deriving DecidableEq

inductive IntegerOperator where
  | add
  | subtract
  | multiply
  | divide
  deriving DecidableEq

namespace IntegerOperator

/-- The two's complement result of `left` by `right`; quotients are truncated toward zero. A sum
overflows if its sign differs from that of both operands, a difference if the signs of the operands
differ and its own is not that of `left`. -/
def apply {width : Nat} (operator : IntegerOperator) (left right : BitVec width) :
    Except ArithmeticFault (BitVec width) :=
  match operator with
  | .add =>
    let sum := left + right
    if (~~~(left ^^^ right) &&& (left ^^^ sum)).msb then .error .overflow else .ok sum
  | .subtract =>
    let difference := left - right
    if ((left ^^^ right) &&& (left ^^^ difference)).msb then .error .overflow else .ok difference
  | .multiply => if left.smulOverflow right then .error .overflow else .ok (left * right)
  | .divide =>
    if right = 0 then .error .divideByZero
    else if left.sdivOverflow right then .error .overflow
    else .ok (left.sdiv right)

end IntegerOperator

def wideProduct (left right : Word) : Int := left.toInt * right.toInt

def orderWord : Ordering → Word
  | .lt => Word.allOnes
  | .eq => 0
  | .gt => 1

end Mainframe
