import Mainframe.Word.Basic

/-! Bit fields of a word. Positions are counted from the most significant bit. -/

set_option autoImplicit false

namespace Mainframe

structure BitField where
  position : Nat
  length : Nat
  fits : position + length ≤ 64
  deriving DecidableEq

namespace BitField

/-- Of the low twelve bits of a descriptor the upper six are the position and the lower six
one less than the length. A field that would run past the last bit is refused. -/
def ofDescriptor (descriptor : HalfWord) : Option BitField :=
  let position := (descriptor.extractLsb' 6 6).toNat
  let length := (descriptor.extractLsb' 0 6).toNat + 1
  if fits : position + length ≤ 64 then some { position, length, fits } else none

def shift (field : BitField) : Nat := 64 - field.position - field.length

def mask (field : BitField) : Word := Word.lowOnes field.length <<< field.shift

def isolate (field : BitField) (word : Word) : Word :=
  (word >>> field.shift) &&& Word.lowOnes field.length

def insert (field : BitField) (word value : Word) : Word :=
  (word &&& ~~~ field.mask) ||| ((value &&& Word.lowOnes field.length) <<< field.shift)

end BitField

end Mainframe
