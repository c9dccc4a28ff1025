import Mainframe.FloatingPoint.Basic

/-! The four operations on floating point words, conversion to and from integers, and
comparison. -/

set_option autoImplicit false

namespace Mainframe.FloatingPoint

def guardBits : Nat := 64

/-- An addend in units of the last guard bit at the common `exponent`, which is not below the
addend's own. Bits that fall below the guard are lost. -/
def aligned (exponent : Int) (addend : Operand) : Int :=
  let magnitude := (addend.coefficient <<< guardBits) >>> (exponent - addend.exponent).toNat
  if addend.negative then -(magnitude : Int) else magnitude

def addOperands : Option Operand → Option Operand → Except FloatFault Word
  | none, none => .ok 0
  | some left, none => addAt left.exponent (aligned left.exponent left)
  | none, some right => addAt right.exponent (aligned right.exponent right)
  | some left, some right =>
    let exponent := max left.exponent right.exponent
    addAt exponent (aligned exponent left + aligned exponent right)
where
  addAt (exponent sum : Int) : Except FloatFault Word :=
    pack (decide (sum < 0)) sum.natAbs (exponent - 48 - guardBits)

def add (left right : Word) : Except FloatFault Word := do
  addOperands (← unpack left) (← unpack right)

/-- The sign changed, except that zero keeps it. -/
def negated (word : Word) : Word :=
  if word.setWidth 63 = 0 then word else word ^^^ BitVec.intMin 64

def subtract (left right : Word) : Except FloatFault Word := add left (negated right)

def multiply (left right : Word) : Except FloatFault Word := do
  match ← unpack left, ← unpack right with
  | some left, some right =>
    pack (left.negative != right.negative) (left.coefficient * right.coefficient)
      (left.exponent + right.exponent - 96)
  | _, _ => .ok 0

/-- A zero divisor is found out before a zero dividend. -/
def divide (left right : Word) : Except FloatFault Word := do
  match ← unpack left, ← unpack right with
  | _, none => .error .divideByZero
  | none, some _ => .ok 0
  | some left, some right =>
    pack (left.negative != right.negative) ((left.coefficient <<< 64) / right.coefficient)
      (left.exponent - right.exponent - 64)

def ofInteger (value : Word) : Except FloatFault Word :=
  pack value.msb value.toInt.natAbs 0

def wholePart (operand : Operand) : Nat :=
  if 48 ≤ operand.exponent then operand.coefficient <<< (operand.exponent - 48).toNat
  else operand.coefficient >>> (48 - operand.exponent).toNat

def toInteger (word : Word) : Except FloatFault Word := do
  match ← unpack word with
  | none => .ok 0
  | some operand =>
    if 64 < operand.exponent then .error .integerOverflow
    else
      -- The least word has a magnitude that no positive word has.
      let value : Int := if operand.negative then -(wholePart operand : Int) else wholePart operand
      if -0x8000000000000000 ≤ value ∧ value < 0x8000000000000000 then .ok (BitVec.ofInt 64 value)
      else .error .integerOverflow

/-- What operands are ordered by: first the sign, then exponent and coefficient, which are turned
round for negative ones. Nothing stands for zero. -/
def orderKey : Option Operand → Int × Int × Nat
  | none => (0, 0, 0)
  | some operand =>
    if operand.negative then (-1, -operand.exponent, Word.allOnes.toNat - operand.coefficient)
    else (1, operand.exponent, operand.coefficient)

def compareOperands (left right : Option Operand) : Ordering :=
  compareLex (compareOn (·.1)) (compareLex (compareOn (·.2.1)) (compareOn (·.2.2)))
    (orderKey left) (orderKey right)

def order (left right : Word) : Except FloatFault Ordering := do
  return compareOperands (← unpack left) (← unpack right)

end Mainframe.FloatingPoint
