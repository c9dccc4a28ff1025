import Mainframe.Instruction.Opcode

/-! The mnemonics of the operations. -/

set_option autoImplicit false

namespace Mainframe

private def integerMnemonic : IntegerOperator → Extent → ArithmeticSource → String
  | .add, .word, .number => "INCX"
  | .subtract, .word, .number => "DECX"
  | .add, .rightHalf, .number => "INCR"
  | .subtract, .rightHalf, .number => "DECR"
  | operator, extent, source =>
    let stem := match operator with
      | .add => "ADD"
      | .subtract => "SUB"
      | .multiply => "MUL"
      | .divide => "DIV"
    stem ++ (if extent = .word then "X" else "R") ++ (if source = .displacement then "Q" else "")

def Computation.mnemonic : Computation → String
  | .integer operator extent source => integerMnemonic operator extent source
  | .floating .add => "ADDF"
  | .floating .subtract => "SUBF"
  | .floating .multiply => "MULF"
  | .floating .divide => "DIVF"
  | .integerToFloating => "CNIF"
  | .floatingToInteger => "CNFI"
  | .compare .rightHalf => "CMPR"
  | .compare .word => "CMPX"
  | .compare .floating => "CMPF"
  | .logical .inclusiveOr => "IORX"
  | .logical .exclusiveOr => "XORX"
  | .logical .conjunction => "ANDX"
  | .logical .complement => "NOTX"
  | .logical .inhibit => "INHX"
  | .mark => "MARK"
  | .shift .circular => "SHFC"
  | .shift .word => "SHFX"
  | .shift .rightHalf => "SHFR"
  | .fieldMask => "ISOM"
  | .isolateField => "ISOB"
  | .insertField => "INSB"
  | .enterFill => "ENTZ/ENTO/ENTS"
  | .enterPositive => "ENTP"
  | .enterNegative => "ENTN"
  | .enterLogical => "ENTL"
  | .enterConstant => "ENTC"
  | .enterSigned => "ENTE"
  | .enterLong => "ENTA"
  | .copyFreeRunning => "CPYTX"
  | .copyAddress => "CPYAA"
  | .wordToAddress => "CPYXA"
  | .addressToWord => "CPYAX"
  | .copyRightHalf => "CPYRR"
  | .copyWord => "CPYXX"
  | .addWordToAddress => "ADDAX"
  | .addDisplacementToAddress => "ADDAQ"
  | .addToProgramAddress => "ADDPXQ"
  | .addIndexedToAddress => "ADDAD"

private def branchMnemonic (reading : Reading) (relation : Relation) : String :=
  let operand := match reading with
    | .rightHalf => "R"
    | .word => "X"
    | .floating => "F"
  let test := match relation with
    | .equal => "EQ"
    | .notEqual => "NE"
    | .greater => "GT"
    | .greaterOrEqual => "GE"
  "BR" ++ operand ++ test

def Transfer.mnemonic : Transfer → String
  | .branch reading relation => branchMnemonic reading relation
  | .branchCounting => "BRINC"
  | .branchSegment => "BRSEG"
  | .branchCondition => "BRCR"
  | .branchRelative => "BRREL"
  | .branchDirect => "BRDIR"
  | .callRelative => "CALLREL"
  | .callSegment => "CALLSEG"
  | .returnFromCall => "RETURN"
  | .popFrame => "POP"

def Storage.mnemonic : Storage → String
  | .loadWord .displaced => "LX"
  | .storeWord .displaced => "SX"
  | .loadAddress .displaced => "LA"
  | .storeAddress .displaced => "SA"
  | .loadWord .indexed => "LXI"
  | .storeWord .indexed => "SXI"
  | .loadAddress .indexed => "LAI"
  | .storeAddress .indexed => "SAI"
  | .loadBytes .registerZero => "LBYT"
  | .storeBytes .registerZero => "SBYT"
  | .loadBytes .opcode => "LBYTS"
  | .storeBytes .opcode => "SBYTS"
  | .loadMultiple => "LMULT"
  | .storeMultiple => "SMULT"
  | .loadBit => "LBIT"
  | .storeBit => "SBIT"
  | .lockBit => "LBSET"
  | .compareSwap => "CMPXA"

def BlockOperation.mnemonic : BlockOperation → String
  | .move => "MOVB"
  | .compare => "CMPB"
  | .compareCollated => "CMPC"
  | .translate => "TRANB"
  | .scan => "SCNB"
  | .edit => "EDIT"

def Control.mnemonic : Control → String
  | .halt => "HALT"
  | .synchronize => "SYNC"
  | .exchange => "EXCHANGE"
  | .interruptProcessor => "INTRUPT"
  | .readStateRegister => "CPYSX"
  | .writeStateRegister => "CPYXS"
  | .purge => "PURGE"
  | .testPage => "TPAGE"
  | .locatePage => "LPAGE"
  | .keypoint => "KEYPOINT"
  | .executeAlgorithm => "EXECUTE"

def Operation.mnemonic : Operation → String
  | .compute operation => operation.mnemonic
  | .transfer operation => operation.mnemonic
  | .storage operation => operation.mnemonic
  | .block operation => operation.mnemonic
  | .control operation => operation.mnemonic

def mnemonicOf (opcode : Byte) : String :=
  ((Operation.ofOpcode opcode).map Operation.mnemonic).getD ""

end Mainframe
