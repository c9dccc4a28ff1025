import Mainframe.Memory.Activity

/-! Bytes of memory. A run of bytes is moved in whole words as far as whole aligned words lie
within it, and byte by byte at its ends. -/

set_option autoImplicit false

namespace Mainframe.Activity

def byteIndex (address : Address) : Nat := address.toNat % 8

def readByte (address : Address) : Activity Byte := do
  return Word.byteAt (← readWord address) (byteIndex address)

/-- The other bytes of the word are read first and written back. -/
def writeByte (address : Address) (byte : Byte) : Activity Unit := do
  let word ← readWord address
  writeWord address (Word.withByteAt word (byteIndex address) byte)

def readEach : Nat → Address → Activity (List Byte)
  | 0, _ => pure []
  | count + 1, address => do
    let byte ← readByte address
    let rest ← readEach count (address + 1)
    return byte :: rest

def writeEach : List Byte → Address → Activity Unit
  | [], _ => pure ()
  | byte :: rest, address => do
    writeByte address byte
    writeEach rest (address + 1)

/-- How many of `count` bytes come before the first word boundary. -/
def unaligned (address : Address) (count : Nat) : Nat := min count ((8 - byteIndex address) % 8)

def readBytes (count : Nat) (address : Address) : Activity (List Byte) := do
  let lead := unaligned address count
  let whole := (count - lead) / 8
  let first ← readEach lead address
  let words ← readAll whole (address + BitVec.ofNat 64 lead)
  let last ← readEach ((count - lead) % 8) (address + BitVec.ofNat 64 (lead + 8 * whole))
  return first ++ words.flatMap Word.toBytes ++ last

/-- Bytes gathered eight to a word; a remainder is left out. -/
def gathered : List Byte → List Word
  | b0 :: b1 :: b2 :: b3 :: b4 :: b5 :: b6 :: b7 :: rest =>
    Word.ofBytes [b0, b1, b2, b3, b4, b5, b6, b7] :: gathered rest
  | _ => []

def writeBytes (bytes : List Byte) (address : Address) : Activity Unit := do
  let lead := unaligned address bytes.length
  let whole := (bytes.length - lead) / 8
  writeEach (bytes.take lead) address
  writeAll (gathered (bytes.drop lead)) (address + BitVec.ofNat 64 lead)
  writeEach (bytes.drop (lead + 8 * whole)) (address + BitVec.ofNat 64 (lead + 8 * whole))

end Mainframe.Activity
