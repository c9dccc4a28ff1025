import Mainframe.Word.Basic
import Mainframe.Text.Hex

/-! Process virtual addresses: a ring, a segment and a byte number within the segment.
A word holds one in its low 48 bits. -/

set_option autoImplicit false

namespace Mainframe

abbrev Ring := BitVec 4
abbrev SegmentNumber := BitVec 12

@[ext] structure VirtualAddress where
  ring : Ring
  segment : SegmentNumber
  byteNumber : HalfWord
  deriving DecidableEq

namespace VirtualAddress

def zero : VirtualAddress := ⟨0, 0, 0⟩

instance : Inhabited VirtualAddress := ⟨zero⟩

def ofWord (word : Word) : VirtualAddress where
  ring := word.extractLsb' 44 4
  segment := word.extractLsb' 32 12
  byteNumber := word.extractLsb' 0 32

def bits (address : VirtualAddress) : BitVec 48 :=
  address.ring ++ address.segment ++ address.byteNumber

def toWord (address : VirtualAddress) : Word := address.bits.setWidth 64

@[simp] theorem ofWord_toWord (address : VirtualAddress) : ofWord address.toWord = address := by
  apply VirtualAddress.ext <;> apply BitVec.eq_of_getLsbD_eq <;> intro bit inside <;>
    simp only [ofWord, toWord, bits, BitVec.getLsbD_append, BitVec.getLsbD_extractLsb',
      BitVec.getLsbD_setWidth] <;> grind

theorem toWord_ofWord (word : Word) : (ofWord word).toWord = (word.setWidth 48).setWidth 64 := by
  apply BitVec.eq_of_getLsbD_eq
  intro bit inside
  simp only [ofWord, toWord, bits, BitVec.getLsbD_append, BitVec.getLsbD_extractLsb',
    BitVec.getLsbD_setWidth]
  grind

/-- Move by a signed number of bytes. The byte number wraps; ring and segment stay. -/
def offset (address : VirtualAddress) (delta : Int) : VirtualAddress :=
  { address with byteNumber := address.byteNumber + BitVec.ofInt 32 delta }

@[simp] theorem offset_zero (address : VirtualAddress) : address.offset 0 = address := by
  simp [offset]

theorem offset_offset (address : VirtualAddress) (first second : Int) :
    (address.offset first).offset second = address.offset (first + second) := by
  simp [offset, BitVec.ofInt_add, BitVec.add_assoc]

def withRing (address : VirtualAddress) (ring : Ring) : VirtualAddress := { address with ring }

def withByteNumber (address : VirtualAddress) (byteNumber : HalfWord) : VirtualAddress :=
  { address with byteNumber }

/-- The ring raised to at least `floor`, of which the address holds the last four bits. Higher
rings have fewer rights. -/
def ringAtLeast (address : VirtualAddress) (floor : Nat) : VirtualAddress :=
  if address.ring.toNat < floor then address.withRing (BitVec.ofNat 4 floor) else address

theorem ring_ringAtLeast (address : VirtualAddress) (floor : Nat) (small : floor < 16) :
    (address.ringAtLeast floor).ring.toNat = max address.ring.toNat floor := by
  unfold ringAtLeast
  split
  · simp [withRing]
    omega
  · omega

def text (address : VirtualAddress) : String :=
  hexDigits address.ring.toNat ++ ":" ++ hexPadded 3 address.segment.toNat ++ ":" ++
    hexPadded 8 address.byteNumber.toNat

end VirtualAddress

end Mainframe
