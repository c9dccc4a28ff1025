import Mainframe.Execute.Block

/-! Editing under a mask. Each mask byte holds an operation and a count n: 0 ends the mask; 1 moves
n source bytes with leading zeros replaced by the fill byte; 2 moves n source bytes as they
are; 3 inserts the next mask byte n times, or the fill byte before significance; 4 skips n
source bytes; 5 takes the next mask byte as the fill byte. A byte moved as it is starts
significance. -/

set_option autoImplicit false

namespace Mainframe

/-- The source still to come, the output so far, and how leading zeros are treated. -/
structure Editor where
  source : List Byte
  output : List Byte
  fill : Byte
  significant : Bool
  deriving DecidableEq

namespace Editor

def start (source : List Byte) : Editor := ⟨source, [], space, false⟩

def zeroDigit : Byte := 0x30

def moveByte (suppress : Bool) (editor : Editor) (byte : Byte) : Editor :=
  if suppress && !editor.significant && byte == zeroDigit then
    { editor with output := editor.output ++ [editor.fill] }
  else
    { editor with output := editor.output ++ [byte], significant := true }

def skip (editor : Editor) (count : Nat) : Option Editor :=
  if count ≤ editor.source.length then some { editor with source := editor.source.drop count }
  else none

def move (editor : Editor) (count : Nat) (suppress : Bool) : Option Editor :=
  ((editor.source.take count).foldl (moveByte suppress) editor).skip count

def insert (editor : Editor) (count : Nat) (byte : Byte) : Editor :=
  { editor with output := editor.output ++
      List.replicate count (if editor.significant then byte else editor.fill) }

def takesOperand (operation : BitVec 4) : Bool := operation == 3 || operation == 5

def apply (editor : Editor) (operation count : BitVec 4) (operand : Byte) : Option Editor :=
  match operation.toNat with
  | 1 => editor.move count.toNat true
  | 2 => editor.move count.toNat false
  | 3 => some (editor.insert count.toNat operand)
  | 4 => editor.skip count.toNat
  | 5 => some { editor with fill := operand }
  | _ => none

def applyWithin (editor : Editor) (limit : Nat) (operation count : BitVec 4) (operand : Byte) :
    Option Editor :=
  (editor.apply operation count operand).filter fun edited => edited.output.length ≤ limit

def finish (editor : Editor) (length : Nat) : List Byte :=
  editor.output ++ List.replicate (length - editor.output.length) editor.fill

end Editor

namespace Execution

def editStep (editor : Editor) (limit : Nat) (byte operand : Word) : Execution Editor :=
  match editor.applyWithin limit (byte.extractLsb' 4 4) (byte.extractLsb' 0 4)
      (operand.setWidth 8) with
  | some edited => return edited
  | none => monitorFault .instructionSpecification

def editUnder (limit : Nat) : (budget : Nat) → VirtualAddress → Editor → Execution Editor
  | 0, _, editor => return editor
  | budget + 1, address, editor => do
    let byte ← loadBytes address 1
    let operation : BitVec 4 := byte.extractLsb' 4 4
    if operation = 0 then return editor
    else if Editor.takesOperand operation then do
      let operand ← loadBytes (address.offset 1) 1
      let edited ← editStep editor limit byte operand
      -- The operand is a byte of the mask too.
      match budget with
      | 0 => return edited
      | rest + 1 => editUnder limit rest (address.offset 2) edited
    else do
      let edited ← editStep editor limit byte 0
      editUnder limit budget (address.offset 1) edited

/-- Nothing is stored unless the whole mask can be carried out. -/
def editBytes (instruction : Instruction) : Execution Unit := do
  let processor ← get
  let limit := destinationLength processor
  let source ← readVirtual (processor.addressRegister instruction.j) (sourceLength processor)
  let editor ← editUnder limit 256 (processor.tableOperand instruction) (.start source)
  writeVirtual (processor.addressRegister instruction.k) (editor.finish limit)

def block (operation : BlockOperation) (instruction : Instruction) : Execution Unit :=
  match operation with
  | .move => moveBytes instruction
  | .compare => compareBytes instruction
  | .compareCollated => compareCollated instruction
  | .translate => translateBytes instruction
  | .scan => scanBytes instruction
  | .edit => editBytes instruction

end Execution

end Mainframe
