import Mainframe.Activation.Frame
import Mainframe.Execute.BitStorage

/-! Moving registers to and from memory: single words and addresses, byte strings, and ranges of
registers. -/

set_option autoImplicit false

namespace Mainframe

namespace Processor

def byteLength (processor : Processor) (instruction : Instruction) : LengthSource → Nat
  | .registerZero => ((processor.wordRegister 0).extractLsb' 0 3).toNat + 1
  | .opcode => instruction.stringLength

end Processor

/-- Registers to be moved in one go, in the order of their words in memory: address registers,
then word registers. -/
structure RegisterRanges where
  addresses : List RegisterNumber
  words : List RegisterNumber
  deriving DecidableEq

namespace RegisterRanges

/-- The last four hexadecimal digits: the first and last address register, and the first and
last word register. -/
def ofWord (word : Word) : RegisterRanges where
  addresses := registersBetween (word.extractLsb' 12 4) (word.extractLsb' 8 4)
  words := registersBetween (word.extractLsb' 4 4) (word.extractLsb' 0 4)

def size (ranges : RegisterRanges) : Nat := ranges.addresses.length + ranges.words.length

def contents (ranges : RegisterRanges) (processor : Processor) : List Word :=
  ranges.addresses.map (fun number => (processor.addressRegister number).toWord) ++
    ranges.words.map processor.wordRegister

def restore (ranges : RegisterRanges) (processor : Processor) (words : List Word) : Processor :=
  (processor.restoreAddresses processor.currentAddress.ring.toNat ranges.addresses
    words).restoreWords ranges.words (words.drop ranges.addresses.length)

end RegisterRanges

namespace Execution

def loadWordRegister (addressing : Addressing) (instruction : Instruction) : Execution Unit := do
  let word ← loadWord ((← get).wordOperand instruction addressing)
  modify fun processor => processor.withWordRegister instruction.k word

def storeWordRegister (addressing : Addressing) (instruction : Instruction) : Execution Unit := do
  let processor ← get
  storeWord (processor.wordOperand instruction addressing) (processor.wordRegister instruction.k)

def loadAddressRegister (addressing : Addressing) (instruction : Instruction) :
    Execution Unit := do
  let word ← loadWord ((← get).wordOperand instruction addressing)
  modify fun processor =>
    processor.withAddressRegister instruction.k (processor.ringAdjusted (.ofWord word))

def storeAddressRegister (addressing : Addressing) (instruction : Instruction) :
    Execution Unit := do
  let processor ← get
  storeWord (processor.wordOperand instruction addressing)
    (processor.addressRegister instruction.k).toWord

def loadByteString (length : LengthSource) (instruction : Instruction) : Execution Unit := do
  let processor ← get
  let word ← loadBytes (processor.indexedOperand instruction 1)
    (processor.byteLength instruction length)
  modify fun processor => processor.withWordRegister instruction.k word

def storeByteString (length : LengthSource) (instruction : Instruction) : Execution Unit := do
  let processor ← get
  storeBytes (processor.indexedOperand instruction 1) (processor.byteLength instruction length)
    (processor.wordRegister instruction.k)

/-- Load the registers that Xk names. Nothing is loaded unless every word can be read. -/
def loadMultiple (instruction : Instruction) : Execution Unit := do
  let processor ← get
  let ranges := RegisterRanges.ofWord (processor.wordRegister instruction.k)
  let words ← loadWords ranges.size (processor.displacedOperand instruction)
  modify fun processor => ranges.restore processor words

def storeMultiple (instruction : Instruction) : Execution Unit := do
  let processor ← get
  let ranges := RegisterRanges.ofWord (processor.wordRegister instruction.k)
  let _ ← storeWords (ranges.contents processor) (processor.displacedOperand instruction)

def storage (operation : Storage) (instruction : Instruction) : Execution Unit :=
  match operation with
  | .loadWord addressing => loadWordRegister addressing instruction
  | .storeWord addressing => storeWordRegister addressing instruction
  | .loadAddress addressing => loadAddressRegister addressing instruction
  | .storeAddress addressing => storeAddressRegister addressing instruction
  | .loadBytes length => loadByteString length instruction
  | .storeBytes length => storeByteString length instruction
  | .loadMultiple => loadMultiple instruction
  | .storeMultiple => storeMultiple instruction
  | .loadBit => loadBit instruction
  | .storeBit => storeBit instruction
  | .lockBit => lockBit instruction
  | .compareSwap => compareSwap instruction

end Execution

end Mainframe
