import Mainframe.Processor.State

/-! The operands that instructions name: numbers formed from an index register, and addresses
with an index or a displacement. -/

set_option autoImplicit false

namespace Mainframe

namespace Processor

/-- The index: the right half of Xi as a signed number, and zero where i is zero. -/
def index (processor : Processor) (instruction : Instruction) : Int :=
  if instruction.i = 0 then 0
  else Word.rightSigned (processor.wordRegister instruction.i)

def indexPlusD (processor : Processor) (instruction : Instruction) : Int :=
  processor.index instruction + instruction.d.toNat

def indexedOperand (processor : Processor) (instruction : Instruction) (scale : Int) :
    VirtualAddress :=
  (processor.addressRegister instruction.j).offset (scale * processor.indexPlusD instruction)

def displacedOperand (processor : Processor) (instruction : Instruction) : VirtualAddress :=
  (processor.addressRegister instruction.j).offset (8 * instruction.signedQ)

def wordOperand (processor : Processor) (instruction : Instruction) : Addressing → VirtualAddress
  | .displaced => processor.displacedOperand instruction
  | .indexed => processor.indexedOperand instruction 8

def tableOperand (processor : Processor) (instruction : Instruction) : VirtualAddress :=
  (processor.addressRegister instruction.i).offset instruction.d.toNat

end Processor

end Mainframe
