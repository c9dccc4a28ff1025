import Mainframe.Address

/-! The registers of the older sixty-bit instruction set, and how they lie in the native
registers while a job that uses it is interrupted. -/

set_option autoImplicit false

namespace Mainframe

/-- The program address is a word address with a parcel number from 0 to 3. The operand
registers are sixty-bit numbers held with their sign extended. -/
@[ext] structure LegacyRegisters where
  p : HalfWord
  parcel : Byte
  a : Vector HalfWord 8
  b : Vector HalfWord 8
  x : Vector Word 8
  referenceAddress : HalfWord
  fieldLength : HalfWord
  exitMode : HalfWord
  extendedReference : HalfWord
  extendedLength : HalfWord
  monitorAddress : HalfWord
  deriving DecidableEq

namespace LegacyRegisters

def zero : LegacyRegisters where
  p := 0
  parcel := 0
  a := Vector.replicate 8 0
  b := Vector.replicate 8 0
  x := Vector.replicate 8 0
  referenceAddress := 0
  fieldLength := 0
  exitMode := 0
  extendedReference := 0
  extendedLength := 0
  monitorAddress := 0

instance : Inhabited LegacyRegisters := ⟨zero⟩

/-- The byte number that stands for the program address: eight bytes to the word and two to
the parcel. -/
def byteNumber (registers : LegacyRegisters) : HalfWord :=
  (registers.p.setWidth 18 ++ registers.parcel.setWidth 2 ++ (0 : BitVec 1)).setWidth 32

def controls (registers : LegacyRegisters) : Vector HalfWord 8 :=
  #v[registers.referenceAddress, registers.fieldLength, registers.exitMode,
    registers.extendedReference, registers.extendedLength, registers.monitorAddress, 0, 0]

structure Native where
  p : VirtualAddress
  a : Vector VirtualAddress 16
  x : Vector Word 16

def operand (word : Word) : Word := Word.signExtended 60 word

/-- Pack into native registers. The address registers take ring and segment from `p`; the
upper operand registers carry the index registers and, above them, the control fields. -/
def toNative (registers : LegacyRegisters) (p : VirtualAddress) : Native where
  p := p.withByteNumber registers.byteNumber
  a := (registers.a.map fun address =>
      p.withByteNumber ((address.setWidth 18).setWidth 32)) ++
    Vector.replicate 8 (p.withByteNumber 0)
  x := registers.x.map operand ++
    registers.controls.zipWith
      (fun control index => (control.setWidth 24 ++ index.setWidth 18).setWidth 64)
      registers.b

def controlField (word : Word) : HalfWord := (word.extractLsb' 18 24).setWidth 32

def ofNative (native : Native) : LegacyRegisters where
  p := (native.p.byteNumber.extractLsb' 3 18).setWidth 32
  parcel := (native.p.byteNumber.extractLsb' 1 2).setWidth 8
  a := (native.a.take 8).map fun address => (address.byteNumber.setWidth 18).setWidth 32
  b := (native.x.drop 8).map fun word => (word.setWidth 18).setWidth 32
  x := (native.x.take 8).map operand
  referenceAddress := controlField native.x[8]
  fieldLength := controlField native.x[9]
  exitMode := controlField native.x[10]
  extendedReference := controlField native.x[11]
  extendedLength := controlField native.x[12]
  monitorAddress := controlField native.x[13]

end LegacyRegisters

end Mainframe
