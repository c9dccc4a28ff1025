import Mainframe.Instruction.Format
import Mainframe.Word.Arithmetic

/-! The operations of the instruction set, in five classes by what they act on, and the format
of the instructions for each. -/

set_option autoImplicit false

namespace Mainframe

inductive Relation where
  | equal
  | notEqual
  | greater
  | greaterOrEqual
  deriving DecidableEq

def Relation.holds : Relation → Ordering → Bool
  | .equal, order => order == .eq
  | .notEqual, order => order != .eq
  | .greater, order => order == .gt
  | .greaterOrEqual, order => order != .lt

inductive Reading where
  | rightHalf
  | word
  | floating
  deriving DecidableEq

inductive Extent where
  | rightHalf
  | word
  deriving DecidableEq

/-- The operands of integer arithmetic, whose result goes to Xk. The left operand is Xk, or Xj
when the right one is Q. -/
inductive ArithmeticSource where
  | register
  | number
  | displacement
  deriving DecidableEq

inductive LogicalOperator where
  | inclusiveOr
  | exclusiveOr
  | conjunction
  | complement
  | inhibit
  deriving DecidableEq

inductive FloatOperator where
  | add
  | subtract
  | multiply
  | divide
  deriving DecidableEq

/-- How a word in memory is addressed: Aj + 8Q, or Aj + 8(index + D). -/
inductive Addressing where
  | displaced
  | indexed
  deriving DecidableEq

inductive LengthSource where
  | registerZero
  | opcode
  deriving DecidableEq

/-- What a shift acts on: the word with its bits going round, the word with its sign copied, or
the right half. -/
inductive ShiftKind where
  | circular
  | word
  | rightHalf
  deriving DecidableEq

inductive Computation where
  | integer (operator : IntegerOperator) (extent : Extent) (source : ArithmeticSource)
  | floating (operator : FloatOperator)
  | integerToFloating
  | floatingToInteger
  | compare (reading : Reading)
  | logical (operator : LogicalOperator)
  | mark
  | shift (kind : ShiftKind)
  | fieldMask
  | isolateField
  | insertField
  | enterFill
  | enterPositive
  | enterNegative
  | enterLogical
  | enterConstant
  | enterSigned
  | enterLong
  | copyFreeRunning
  | copyAddress
  | wordToAddress
  | addressToWord
  | copyRightHalf
  | copyWord
  | addWordToAddress
  | addDisplacementToAddress
  | addToProgramAddress
  | addIndexedToAddress
  deriving DecidableEq

inductive Transfer where
  | branch (reading : Reading) (relation : Relation)
  | branchCounting
  | branchSegment
  | branchCondition
  | branchRelative
  | branchDirect
  | callRelative
  | callSegment
  | returnFromCall
  | popFrame
  deriving DecidableEq

inductive Storage where
  | loadWord (addressing : Addressing)
  | storeWord (addressing : Addressing)
  | loadAddress (addressing : Addressing)
  | storeAddress (addressing : Addressing)
  | loadBytes (length : LengthSource)
  | storeBytes (length : LengthSource)
  | loadMultiple
  | storeMultiple
  | loadBit
  | storeBit
  | lockBit
  | compareSwap
  deriving DecidableEq

inductive BlockOperation where
  | move
  | compare
  | compareCollated
  | translate
  | scan
  | edit
  deriving DecidableEq

inductive Control where
  | halt
  | synchronize
  | exchange
  | interruptProcessor
  | readStateRegister
  | writeStateRegister
  | purge
  | testPage
  | locatePage
  | keypoint
  | executeAlgorithm
  deriving DecidableEq

inductive Operation where
  | compute (computation : Computation)
  | transfer (transfer : Transfer)
  | storage (storage : Storage)
  | block (block : BlockOperation)
  | control (control : Control)
  deriving DecidableEq

def Computation.format : Computation → Format
  | .integer _ _ .displacement | .enterConstant | .enterSigned | .enterLong
  | .addDisplacementToAddress | .addToProgramAddress => .jkQ
  | .shift _ | .fieldMask | .isolateField | .insertField | .addIndexedToAddress => .jkiD
  | _ => .jk

def Transfer.format : Transfer → Format
  | .branch _ _ | .branchCounting | .branchSegment | .branchCondition | .callRelative => .jkQ
  | .callSegment => .jkiD
  | .branchRelative | .branchDirect | .returnFromCall | .popFrame => .jk

def Storage.format : Storage → Format
  | .loadWord .displaced | .storeWord .displaced | .loadAddress .displaced
  | .storeAddress .displaced | .loadMultiple | .storeMultiple | .loadBit | .storeBit
  | .compareSwap => .jkQ
  | .loadWord .indexed | .storeWord .indexed | .loadAddress .indexed | .storeAddress .indexed
  | .loadBytes _ | .storeBytes _ => .jkiD
  | .lockBit => .jk

def BlockOperation.format : BlockOperation → Format
  | .move | .compare => .jk
  | .compareCollated | .translate | .scan | .edit => .jkiD

def Control.format : Control → Format
  | .keypoint => .jkQ
  | .executeAlgorithm => .jkiD
  | _ => .jk

def Operation.format : Operation → Format
  | .compute operation => operation.format
  | .transfer operation => operation.format
  | .storage operation => operation.format
  | .block operation => operation.format
  | .control operation => operation.format

end Mainframe
