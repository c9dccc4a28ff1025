import Mainframe.Memory.Bytes
import Mainframe.Processor.Conditions
import Mainframe.Translation.Translate

/-! Access to memory by virtual address. A run of bytes is split where pages end, and each piece
is translated on its own; the pieces before a failure stay moved. -/

set_option autoImplicit false

namespace Mainframe

def TranslationUnit.pieces (unit : TranslationUnit) (byteNumber : HalfWord) (count : Nat) :
    List Nat :=
  let first := min count (unit.pageRemaining byteNumber)
  let rest := count - first
  (first :: (List.replicate (rest / unit.pageSize) unit.pageSize ++ [rest % unit.pageSize])).filter
    (· != 0)

namespace Execution

def translate (address : VirtualAddress) (modes : AccessModes) : Execution Address := do
  let processor ← get
  let (outcome, unit) ← processor.translation.translate address modes processor.key
  set { processor with translation := unit }
  Routine.report (.translated address modes outcome)
  match outcome with
  | .ok real => return real
  | .error fault => throw (.ofFault fault)

def readPieces : List Nat → VirtualAddress → Execution (List Byte)
  | [], _ => return []
  | count :: rest, address => do
    let real ← translate address .forRead
    let bytes ← Activity.readBytes count real
    let more ← readPieces rest (address.offset count)
    return bytes ++ more

def readVirtual (address : VirtualAddress) (count : Nat) : Execution (List Byte) := do
  readPieces ((← get).translation.pieces address.byteNumber count) address

def writePieces : List Nat → List Byte → VirtualAddress → Execution Unit
  | [], _, _ => return
  | count :: rest, bytes, address => do
    let real ← translate address .forWrite
    Activity.writeBytes (bytes.take count) real
    writePieces rest (bytes.drop count) (address.offset count)

def writeVirtual (address : VirtualAddress) (bytes : List Byte) : Execution Unit := do
  writePieces ((← get).translation.pieces address.byteNumber bytes.length) bytes address

def isAligned (address : VirtualAddress) : Bool := address.byteNumber.extractLsb' 0 3 == 0

def loadWord (address : VirtualAddress) : Execution Word :=
  if isAligned address then do
    let real ← translate address .forRead
    Activity.readWord real
  else do
    return Word.ofBytes (← readVirtual address 8)

def storeWord (address : VirtualAddress) (word : Word) : Execution Unit :=
  if isAligned address then do
    let real ← translate address .forWrite
    Activity.writeWord real word
  else writeVirtual address word.toBytes

def loadBytes (address : VirtualAddress) (length : Nat) : Execution Word :=
  if length = 8 then loadWord address
  else do
    return Word.ofBytes (← readVirtual address length)

def storeBytes (address : VirtualAddress) (length : Nat) (word : Word) : Execution Unit :=
  if length = 8 then storeWord address word
  else writeVirtual address (word.toBytes.drop (8 - length))

def loadWords : Nat → VirtualAddress → Execution (List Word)
  | 0, _ => return []
  | count + 1, address => do
    let word ← loadWord address
    let rest ← loadWords count (address.offset 8)
    return word :: rest

/-- Store consecutive words; the result is the address after the last. -/
def storeWords : List Word → VirtualAddress → Execution VirtualAddress
  | [], address => return address
  | word :: rest, address => do
    storeWord address word
    storeWords rest (address.offset 8)

end Execution

end Mainframe
