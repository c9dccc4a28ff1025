/-! Sixty-four bit memory words, their halves, and their eight bytes.
Bytes are numbered from the most significant end, so byte 0 is the leftmost. -/

set_option autoImplicit false

namespace Mainframe

abbrev Word := BitVec 64
abbrev HalfWord := BitVec 32
abbrev Parcel := BitVec 16
abbrev Byte := BitVec 8

namespace Word

def allOnes : Word := BitVec.allOnes 64

def rightHalf (word : Word) : HalfWord := word.setWidth 32

def withRightHalf (word : Word) (right : HalfWord) : Word :=
  word.extractLsb' 32 32 ++ right

def rightSigned (word : Word) : Int := (rightHalf word).toInt

def lowOnes (count : Nat) : Word := BitVec.ofNat 64 (1 <<< min count 64 - 1)

theorem getLsbD_lowOnes (count bit : Nat) :
    (lowOnes count).getLsbD bit = (decide (bit < 64) && decide (bit < count)) := by
  have least : bit < min count 64 ↔ bit < 64 ∧ bit < count := by omega
  rw [lowOnes, Nat.one_shiftLeft, BitVec.getLsbD_ofNat, Nat.testBit_two_pow_sub_one]
  simp [least]

/-- The one bit at `position`, counted from the most significant end. -/
def selector (position : Nat) : Word := BitVec.ofNat 64 (1 <<< (63 - position))

def signBits (width : Nat) : Word := ~~~ lowOnes width

def signExtended (width : Nat) (word : Word) : Word :=
  (word.setWidth (min width 64)).signExtend 64

/-- The byte whose last bit is `place` bits from the right end. -/
def byteFrom (word : Word) (place : Nat) : Byte := word.extractLsb' place 8

/-- The eight bytes, leftmost first. -/
def toBytes (word : Word) : List Byte :=
  [byteFrom word 56, byteFrom word 48, byteFrom word 40, byteFrom word 32,
    byteFrom word 24, byteFrom word 16, byteFrom word 8, byteFrom word 0]

/-- The number whose big-endian digits are `bytes`; of more than eight the last eight count. -/
def ofBytes (bytes : List Byte) : Word :=
  bytes.foldl (fun word byte => (word <<< 8) ||| byte.setWidth 64) 0

theorem length_toBytes (word : Word) : (toBytes word).length = 8 := rfl

@[simp] theorem ofBytes_toBytes (word : Word) : ofBytes word.toBytes = word := by
  apply BitVec.eq_of_getLsbD_eq
  intro bit inside
  simp [ofBytes, toBytes, byteFrom]
  grind

def byteShift (index : Nat) : Nat := 8 * (7 - index % 8)

def byteAt (word : Word) (index : Nat) : Byte := byteFrom word (byteShift index)

def withByteAt (word : Word) (index : Nat) (byte : Byte) : Word :=
  (word &&& ~~~ ((BitVec.allOnes 8).setWidth 64 <<< byteShift index)) |||
    (byte.setWidth 64 <<< byteShift index)

theorem byteAt_withByteAt (word : Word) (index other : Nat) (byte : Byte) :
    (word.withByteAt index byte).byteAt other =
      if index % 8 = other % 8 then byte else word.byteAt other := by
  have apart : index % 8 ≠ other % 8 →
      byteShift index + 8 ≤ byteShift other ∨ byteShift other + 8 ≤ byteShift index := by
    unfold byteShift
    omega
  have same : index % 8 = other % 8 → byteShift index = byteShift other := by
    unfold byteShift
    omega
  have small : byteShift other ≤ 56 := by
    unfold byteShift
    omega
  apply BitVec.eq_of_getLsbD_eq
  intro bit inside
  split <;> simp [byteAt, withByteAt, byteFrom, -BitVec.reduceAllOnes] <;> grind

end Word

end Mainframe
