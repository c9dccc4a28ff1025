import Mainframe.Word.Basic

/-! Instructions as they lie in memory: one or two sixteen-bit parcels. The first parcel holds
the opcode and the register numbers j and k. The second, if there is one, holds either the
register number i and a twelve-bit displacement D, or a sixteen-bit displacement Q. -/

set_option autoImplicit false

namespace Mainframe

abbrev RegisterNumber := BitVec 4

inductive Format where
  | jk
  | jkiD
  | jkQ
  deriving DecidableEq

namespace Format

def hasSecondParcel : Format → Bool
  | .jk => false
  | .jkiD | .jkQ => true

def length (format : Format) : Nat := if format.hasSecondParcel then 4 else 2

def name : Format → String
  | .jk => "Jk"
  | .jkiD => "JkiD"
  | .jkQ => "JkQ"

end Format

/-- The fields that the format lacks are zero. -/
structure Instruction where
  opcode : Byte
  format : Format
  j : RegisterNumber
  k : RegisterNumber
  i : RegisterNumber
  d : BitVec 12
  q : Parcel
  deriving DecidableEq

namespace Instruction

def opcodeOf (first : Parcel) : Byte := first.extractLsb' 8 8

def decode (format : Format) (first second : Parcel) : Instruction where
  opcode := opcodeOf first
  format := format
  j := first.extractLsb' 4 4
  k := first.extractLsb' 0 4
  i := if format = .jkiD then second.extractLsb' 12 4 else 0
  d := if format = .jkiD then second.extractLsb' 0 12 else 0
  q := if format = .jkQ then second else 0

instance : Inhabited Instruction := ⟨decode .jk 0 0⟩

def length (instruction : Instruction) : Nat := instruction.format.length

def signedQ (instruction : Instruction) : Int := instruction.q.toInt

def signedD (instruction : Instruction) : Int := instruction.d.toInt

/-- The byte count, from one to eight, that the last three bits of the opcode give. -/
def stringLength (instruction : Instruction) : Nat := (instruction.opcode.extractLsb' 0 3).toNat + 1

end Instruction

end Mainframe
