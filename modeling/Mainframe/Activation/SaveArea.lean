import Mainframe.Processor.State

/-! Save areas: the words in which calls and traps leave the interrupted activation, and the
ranges of registers that they keep. -/

set_option autoImplicit false

namespace Mainframe

def registersBetween (first last : RegisterNumber) : List RegisterNumber :=
  (List.range' first.toNat (last.toNat + 1 - first.toNat)).map (BitVec.ofNat 4)

/-- Besides A0, A1 and A2 a save area keeps A3 to a last address register, and the word
registers between two numbers. -/
@[ext] structure SavedRange where
  lastAddress : RegisterNumber
  firstWord : RegisterNumber
  lastWord : RegisterNumber
  deriving DecidableEq

namespace SavedRange

def all : SavedRange := ⟨15, 0, 15⟩

/-- Three register numbers; a last address register before A2 means A2. -/
def ofBits (bits : BitVec 12) : SavedRange where
  lastAddress := if bits.extractLsb' 8 4 < 2 then 2 else bits.extractLsb' 8 4
  firstWord := bits.extractLsb' 4 4
  lastWord := bits.extractLsb' 0 4

def bits (range : SavedRange) : BitVec 12 := range.lastAddress ++ range.firstWord ++ range.lastWord

def addressNumbers (range : SavedRange) : List RegisterNumber :=
  registersBetween 3 range.lastAddress

def wordNumbers (range : SavedRange) : List RegisterNumber :=
  registersBetween range.firstWord range.lastWord

end SavedRange

@[ext] structure FrameDescriptor where
  flags : Flags
  isTrap : Bool
  range : SavedRange
  deriving DecidableEq

namespace FrameDescriptor

def ofBits (bits : BitVec 16) : FrameDescriptor where
  flags := ⟨bits.getLsbD 15, bits.getLsbD 14⟩
  isTrap := bits.getLsbD 13
  range := .ofBits (bits.extractLsb' 0 12)

def bits (descriptor : FrameDescriptor) : BitVec 16 :=
  BitVec.ofBool descriptor.flags.criticalFrame ++ BitVec.ofBool descriptor.flags.onCondition ++
    BitVec.ofBool descriptor.isTrap ++ (0 : BitVec 1) ++ descriptor.range.bits

end FrameDescriptor

def tagged (tag : BitVec 16) (address : VirtualAddress) : Word := tag ++ address.bits

def tagOf (word : Word) : BitVec 16 := word.extractLsb' 48 16

/-- What a save area keeps. The monitor and user conditions that a trap delivers are in the last
word of its save area. -/
structure SaveArea where
  returnAddress : VirtualAddress
  key : Byte
  virtualMachine : BitVec 4
  flags : Flags
  userMask : ConditionBits
  a : AddressRegisters
  x : WordRegisters
  range : SavedRange
  delivered : Option (ConditionBits × ConditionBits)

namespace SaveArea

def address (area : SaveArea) (number : RegisterNumber) : VirtualAddress :=
  area.a.get number.toFin

def word (area : SaveArea) (number : RegisterNumber) : Word := area.x.get number.toFin

def descriptor (area : SaveArea) : FrameDescriptor := ⟨area.flags, area.delivered.isSome, area.range⟩

def conditionWord (delivered : ConditionBits × ConditionBits) : Word :=
  (delivered.1 ++ delivered.2).setWidth 64

def words (area : SaveArea) : List Word :=
  [tagged ((area.key.setWidth 6).setWidth 16) area.returnAddress,
    tagged (area.virtualMachine ++ (0 : BitVec 12)) (area.address 0),
    tagged area.descriptor.bits (area.address 1),
    tagged area.userMask (area.address 2)] ++
  area.range.addressNumbers.map (fun number => (area.address number).toWord) ++
  area.range.wordNumbers.map area.word ++
  (area.delivered.map conditionWord).toList

end SaveArea

end Mainframe
