import Mainframe.Compute.Operand
import Mainframe.Processor.Access

/-! Single bits in memory, and the two operations that no other processor can interrupt: setting
a bit, and swapping a word that is the expected one. -/

set_option autoImplicit false

namespace Mainframe

/-- The byte that holds a bit, and the place of the bit in it, counted from the left. -/
structure BitOperand where
  byte : VirtualAddress
  place : Fin 8
  deriving DecidableEq

namespace BitOperand

def mask (operand : BitOperand) : Word := (0x80 : Word) >>> operand.place.val

def select (operand : BitOperand) (byte : Word) : Word :=
  (byte >>> (7 - operand.place.val)) &&& 1

def replace (operand : BitOperand) (byte : Word) (bit : Bool) : Word :=
  if bit then byte ||| operand.mask else byte &&& ~~~ operand.mask

end BitOperand

namespace Processor

/-- The bit as far from the first one of the byte at Aj + displacement as the right half of X0
says. -/
def bitOperand (processor : Processor) (instruction : Instruction) (displacement : Int) :
    BitOperand :=
  let distance := Word.rightHalf (processor.wordRegister 0)
  { byte := (processor.addressRegister instruction.j).offset
      (displacement + (distance.sshiftRight 3).toInt)
    place := (distance.extractLsb' 0 3).toFin }

end Processor

namespace Execution

def loadBit (instruction : Instruction) : Execution Unit := do
  let operand := (← get).bitOperand instruction instruction.signedQ
  let byte ← loadBytes operand.byte 1
  modify fun processor => processor.withWordRegister instruction.k (operand.select byte)

def storeBit (instruction : Instruction) : Execution Unit := do
  let processor ← get
  let operand := processor.bitOperand instruction instruction.signedQ
  let byte ← loadBytes operand.byte 1
  storeBytes operand.byte 1
    (operand.replace byte ((processor.wordRegister instruction.k).getLsbD 0))

def lockBit (instruction : Instruction) : Execution Unit := do
  let operand := (← get).bitOperand instruction 0
  let real ← translate operand.byte .forUpdate
  let mask := Word.selector (8 * (real.toNat % 8) + operand.place.val)
  let old ← Activity.modifyWord ((real >>> 3) <<< 3) fun word => word ||| mask
  modify fun processor =>
    processor.withWordRegister instruction.k (if old &&& mask = 0 then 0 else 1)

/-- Store Xk at Aj + 8Q if the word there is X0. X1 becomes zero if so, and otherwise one, with
the word in X0. -/
def compareSwap (instruction : Instruction) : Execution Unit := do
  let processor ← get
  let address := processor.displacedOperand instruction
  if !isAligned address then faultAt address .addressSpecification
  let real ← translate address .forUpdate
  let expected := processor.wordRegister 0
  let old ← Activity.modifyWord real fun word =>
    if word = expected then processor.wordRegister instruction.k else word
  modify fun processor =>
    if old = expected then processor.withWordRegister 1 0
    else (processor.withWordRegister 0 old).withWordRegister 1 1

end Execution

end Mainframe
