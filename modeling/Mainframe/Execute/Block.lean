import Mainframe.Compute.Operand
import Mainframe.Processor.Access
import Mainframe.Word.Arithmetic

/-! Instructions on blocks of up to 256 bytes. The source is at Aj with its length in X0, and the
destination at Ak with its length in X1. The shorter of two blocks counts as padded with
spaces. Tables are at Ai + D. -/

set_option autoImplicit false

namespace Mainframe

def space : Byte := 0x20

def blockLength (word : Word) : Nat := min (word.setWidth 9).toNat 256

def padded (length : Nat) (bytes : List Byte) : List Byte :=
  bytes.take length ++ List.replicate (length - bytes.length) space

def tableEntry (table : List Byte) (byte : Byte) : Byte := table.getD byte.toNat 0

def firstDifference : List Byte → List Byte → Nat × Ordering
  | left :: lefts, right :: rights =>
    if left = right then
      let (place, order) := firstDifference lefts rights
      (place + 1, order)
    else (0, compare left.toNat right.toNat)
  | _, _ => (0, .eq)

/-- The bit of a set of 256 bits that stands for a byte, counted from the left. -/
def isMember (members : List Byte) (byte : Byte) : Bool :=
  (members.getD (byte.toNat / 8) 0).getLsbD (7 - byte.toNat % 8)

namespace Execution

def sourceLength (processor : Processor) : Nat := blockLength (processor.wordRegister 0)

def destinationLength (processor : Processor) : Nat := blockLength (processor.wordRegister 1)

def readTable (instruction : Instruction) : Execution (List Byte) := do
  readVirtual ((← get).tableOperand instruction) 256

/-- Read the source as far as the destination has room for it, and store it there with each
byte, padding included, changed. -/
def copyBlock (change : Byte → Byte) (instruction : Instruction) : Execution Unit := do
  let processor ← get
  let length := destinationLength processor
  let bytes ← readVirtual (processor.addressRegister instruction.j)
    (min (sourceLength processor) length)
  writeVirtual (processor.addressRegister instruction.k) ((padded length bytes).map change)

def moveBytes (instruction : Instruction) : Execution Unit := copyBlock id instruction

def translateBytes (instruction : Instruction) : Execution Unit := do
  let table ← readTable instruction
  copyBlock (tableEntry table) instruction

/-- Compare two blocks with each byte, padding included, changed. X0 becomes their order and X1
the place of the first difference, or the compared length. -/
def compareBlocks (change : Byte → Byte) (instruction : Instruction) : Execution Unit := do
  let processor ← get
  let left ← readVirtual (processor.addressRegister instruction.j) (sourceLength processor)
  let right ← readVirtual (processor.addressRegister instruction.k) (destinationLength processor)
  let length := max (sourceLength processor) (destinationLength processor)
  let (place, order) := firstDifference ((padded length left).map change)
    ((padded length right).map change)
  modify fun processor =>
    (processor.withWordRegister 0 (orderWord order)).withWordRegister 1 (BitVec.ofNat 64 place)

def compareBytes (instruction : Instruction) : Execution Unit := compareBlocks id instruction

def compareCollated (instruction : Instruction) : Execution Unit := do
  let table ← readTable instruction
  compareBlocks (tableEntry table) instruction

/-- Find the first byte of the source in a set. X1 becomes its place and X0 the byte; if there
is none, X1 becomes the length and X0 minus one. -/
def scanBytes (instruction : Instruction) : Execution Unit := do
  let processor ← get
  let members ← readVirtual (processor.tableOperand instruction) 32
  let bytes ← readVirtual (processor.addressRegister instruction.j) (sourceLength processor)
  let place := bytes.findIdx (isMember members)
  modify fun processor =>
    let found := match bytes[place]? with
      | some byte => byte.setWidth 64
      | none => Word.allOnes
    (processor.withWordRegister 0 found).withWordRegister 1 (BitVec.ofNat 64 place)

end Execution

end Mainframe
