import Mainframe.Instruction.Operation

/-! The assignment of operations to opcodes. -/

set_option autoImplicit false

namespace Mainframe

def Operation.ofOpcode (opcode : Byte) : Option Operation :=
  match opcode.toNat with
  | 0x00 => some (.control .halt)
  | 0x01 => some (.control .synchronize)
  | 0x02 => some (.control .exchange)
  | 0x03 => some (.control .interruptProcessor)
  | 0x04 => some (.transfer .returnFromCall)
  | 0x05 => some (.transfer .popFrame)
  | 0x07 => some (.compute .copyFreeRunning)
  | 0x08 => some (.compute .copyAddress)
  | 0x09 => some (.compute .wordToAddress)
  | 0x0A => some (.compute .addressToWord)
  | 0x0B => some (.compute .copyRightHalf)
  | 0x0C => some (.compute .copyWord)
  | 0x0D => some (.control .readStateRegister)
  | 0x0E => some (.control .writeStateRegister)
  | 0x0F => some (.compute (.integer .add .word .number))
  | 0x10 => some (.compute (.integer .subtract .word .number))
  | 0x14 => some (.storage .lockBit)
  | 0x15 => some (.control .purge)
  | 0x16 => some (.control .testPage)
  | 0x17 => some (.control .locatePage)
  | 0x18 => some (.compute (.logical .inclusiveOr))
  | 0x19 => some (.compute (.logical .exclusiveOr))
  | 0x1A => some (.compute (.logical .conjunction))
  | 0x1B => some (.compute (.logical .complement))
  | 0x1C => some (.compute (.logical .inhibit))
  | 0x1E => some (.compute .mark)
  | 0x1F => some (.compute .enterFill)
  | 0x20 => some (.compute (.integer .add .rightHalf .register))
  | 0x21 => some (.compute (.integer .subtract .rightHalf .register))
  | 0x22 => some (.compute (.integer .multiply .rightHalf .register))
  | 0x23 => some (.compute (.integer .divide .rightHalf .register))
  | 0x24 => some (.compute (.integer .add .word .register))
  | 0x25 => some (.compute (.integer .subtract .word .register))
  | 0x26 => some (.compute (.integer .multiply .word .register))
  | 0x27 => some (.compute (.integer .divide .word .register))
  | 0x28 => some (.compute (.integer .add .rightHalf .number))
  | 0x29 => some (.compute (.integer .subtract .rightHalf .number))
  | 0x2A => some (.compute .addWordToAddress)
  | 0x2C => some (.compute (.compare .rightHalf))
  | 0x2D => some (.compute (.compare .word))
  | 0x2E => some (.transfer .branchRelative)
  | 0x2F => some (.transfer .branchDirect)
  | 0x30 => some (.compute (.floating .add))
  | 0x31 => some (.compute (.floating .subtract))
  | 0x32 => some (.compute (.floating .multiply))
  | 0x33 => some (.compute (.floating .divide))
  | 0x3A => some (.compute .integerToFloating)
  | 0x3B => some (.compute .floatingToInteger)
  | 0x3C => some (.compute (.compare .floating))
  | 0x3D => some (.compute .enterPositive)
  | 0x3E => some (.compute .enterNegative)
  | 0x3F => some (.compute .enterLogical)
  | 0x80 => some (.storage .loadMultiple)
  | 0x81 => some (.storage .storeMultiple)
  | 0x82 => some (.storage (.loadWord .displaced))
  | 0x83 => some (.storage (.storeWord .displaced))
  | 0x84 => some (.storage (.loadAddress .displaced))
  | 0x85 => some (.storage (.storeAddress .displaced))
  | 0x87 => some (.compute .enterConstant)
  | 0x88 => some (.storage .loadBit)
  | 0x89 => some (.storage .storeBit)
  | 0x8A => some (.compute (.integer .add .rightHalf .displacement))
  | 0x8B => some (.compute (.integer .add .word .displacement))
  | 0x8C => some (.compute (.integer .multiply .rightHalf .displacement))
  | 0x8D => some (.compute .enterSigned)
  | 0x8E => some (.compute .addDisplacementToAddress)
  | 0x8F => some (.compute .addToProgramAddress)
  | 0x90 => some (.transfer (.branch .rightHalf .equal))
  | 0x91 => some (.transfer (.branch .rightHalf .notEqual))
  | 0x92 => some (.transfer (.branch .rightHalf .greater))
  | 0x93 => some (.transfer (.branch .rightHalf .greaterOrEqual))
  | 0x94 => some (.transfer (.branch .word .equal))
  | 0x95 => some (.transfer (.branch .word .notEqual))
  | 0x96 => some (.transfer (.branch .word .greater))
  | 0x97 => some (.transfer (.branch .word .greaterOrEqual))
  | 0x98 => some (.transfer (.branch .floating .equal))
  | 0x99 => some (.transfer (.branch .floating .notEqual))
  | 0x9A => some (.transfer (.branch .floating .greater))
  | 0x9B => some (.transfer (.branch .floating .greaterOrEqual))
  | 0x9C => some (.transfer .branchCounting)
  | 0x9D => some (.transfer .branchSegment)
  | 0x9F => some (.transfer .branchCondition)
  | 0xA0 => some (.storage (.loadAddress .indexed))
  | 0xA1 => some (.storage (.storeAddress .indexed))
  | 0xA2 => some (.storage (.loadWord .indexed))
  | 0xA3 => some (.storage (.storeWord .indexed))
  | 0xA4 => some (.storage (.loadBytes .registerZero))
  | 0xA5 => some (.storage (.storeBytes .registerZero))
  | 0xA7 => some (.compute .addIndexedToAddress)
  | 0xA8 => some (.compute (.shift .circular))
  | 0xA9 => some (.compute (.shift .word))
  | 0xAA => some (.compute (.shift .rightHalf))
  | 0xAC => some (.compute .fieldMask)
  | 0xAD => some (.compute .isolateField)
  | 0xAE => some (.compute .insertField)
  | 0xB0 => some (.transfer .callRelative)
  | 0xB1 => some (.control .keypoint)
  | 0xB2 => some (.compute (.integer .multiply .word .displacement))
  | 0xB3 => some (.compute .enterLong)
  | 0xB4 => some (.storage .compareSwap)
  | 0xB5 => some (.transfer .callSegment)
  | 0xC0 | 0xC1 | 0xC2 | 0xC3 | 0xC4 | 0xC5 | 0xC6 | 0xC7 => some (.control .executeAlgorithm)
  | 0xD0 | 0xD1 | 0xD2 | 0xD3 | 0xD4 | 0xD5 | 0xD6 | 0xD7 => some (.storage (.loadBytes .opcode))
  | 0xD8 | 0xD9 | 0xDA | 0xDB | 0xDC | 0xDD | 0xDE | 0xDF => some (.storage (.storeBytes .opcode))
  | 0xE9 => some (.block .compareCollated)
  | 0xEB => some (.block .translate)
  | 0xED => some (.block .edit)
  | 0xF3 => some (.block .scan)
  | 0xF9 => some (.block .move)
  | 0xFA => some (.block .compare)
  | _ => none

/-- The format of the instructions with an opcode. Unassigned opcodes take one parcel. -/
def formatOf (opcode : Byte) : Format := ((Operation.ofOpcode opcode).map Operation.format).getD .jk

end Mainframe
