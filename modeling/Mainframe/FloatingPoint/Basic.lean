import Mainframe.Word.Basic

/-! Floating point words: a sign bit, a fifteen-bit exponent biased by 0x4000 and a 48-bit
coefficient. A word stands for its coefficient, read as a binary fraction, times two to the
exponent. Operands may be unnormalized; results are normalized and truncated. -/

set_option autoImplicit false

namespace Mainframe

inductive FloatFault where
  | indefinite
  | exponentOverflow
  | exponentUnderflow
  | divideByZero
  | integerOverflow
  deriving DecidableEq

namespace FloatingPoint

def bias : Int := 0x4000
def smallestExponent : Int := 0x3000
def largestExponent : Int := 0x4FFF

/-- A nonzero operand. Its magnitude is the coefficient times two to the exponent less 48. -/
structure Operand where
  negative : Bool
  exponent : Int
  coefficient : Nat
  deriving DecidableEq

def signBit (word : Word) : Bool := word.msb

def biasedExponent (word : Word) : Int := (word.extractLsb' 48 15).toNat

def coefficient (word : Word) : Nat := (word.extractLsb' 0 48).toNat

/-- An exponent outside the normal range marks an infinite or indefinite operand, except that
a word with nothing below the sign is zero. -/
def IsIndefinite (word : Word) : Prop :=
  ¬ (biasedExponent word = 0 ∧ coefficient word = 0) ∧
    ¬ (smallestExponent ≤ biasedExponent word ∧ biasedExponent word ≤ largestExponent)

instance (word : Word) : Decidable (IsIndefinite word) := inferInstanceAs (Decidable (_ ∧ _))

def leadingZeros (coefficient : Nat) : Nat := 47 - coefficient.log2

def unpack (word : Word) : Except FloatFault (Option Operand) :=
  if IsIndefinite word then .error .indefinite
  else if coefficient word = 0 then .ok none
  else .ok (some {
    negative := signBit word
    exponent := biasedExponent word - bias - leadingZeros (coefficient word)
    coefficient := coefficient word <<< leadingZeros (coefficient word) })

def leadingBits (magnitude : Nat) : Nat :=
  if 47 < magnitude.log2 then magnitude >>> (magnitude.log2 - 47)
  else magnitude <<< (47 - magnitude.log2)

/-- The word for the magnitude times two to the `scale`, truncated to 48 bits. -/
def pack (negative : Bool) (magnitude : Nat) (scale : Int) : Except FloatFault Word :=
  if magnitude = 0 then .ok 0
  else
    let biased := scale + magnitude.log2 + 1 + bias
    if largestExponent < biased then .error .exponentOverflow
    else if biased < smallestExponent then .error .exponentUnderflow
    else .ok (BitVec.ofBool negative ++ BitVec.ofInt 15 biased ++
      BitVec.ofNat 48 (leadingBits magnitude))

end FloatingPoint

end Mainframe
