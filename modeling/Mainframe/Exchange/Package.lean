import Mainframe.Memory.Activity
import Mainframe.Activation.SaveArea

/-! Exchange packages: the 58 words in which the state of a job or of the monitor is kept in real
memory while the other one runs. -/

set_option autoImplicit false

namespace Mainframe

abbrev PackageWords := Vector Word 58

@[ext] structure ExchangePackage where
  p : VirtualAddress
  key : BitVec 6
  instructionMachine : BitVec 4
  virtualMachine : BitVec 4
  a : AddressRegisters
  flags : Flags
  trapControl : TrapControl
  userMask : ConditionBits
  monitorMask : ConditionBits
  userConditions : ConditionBits
  monitorConditions : ConditionBits
  lastProcessor : Byte
  keypointMask : BitVec 16
  x : WordRegisters
  monitorPackage : HalfWord
  keypointCode : Word
  segmentLimit : SegmentNumber
  segmentTable : HalfWord
  baseConstant : Word
  processTimer : HalfWord
  untranslatable : VirtualAddress
  trapPointer : Word
  debugList : Word
  debugMask : BitVec 16
  largestRing : BitVec 4
  stackTops : Vector VirtualAddress 15

namespace ExchangePackage

/-- What the words of the address registers hold above the addresses. -/
def tags (package : ExchangePackage) : Vector (BitVec 16) 16 :=
  #v[package.instructionMachine ++ package.virtualMachine ++ (0 : BitVec 8),
    package.flags.bits, package.trapControl.bits, package.userMask, package.monitorMask,
    package.userConditions, package.monitorConditions, package.lastProcessor.setWidth 16,
    package.keypointMask, 0, 0, 0, 0, 0, 0, 0]

/-- The words from the lowest address up. Undefined bits are zero. -/
def toWords (package : ExchangePackage) : PackageWords :=
  #v[tagged (package.key.setWidth 16) package.p] ++
  package.tags.zipWith tagged package.a ++
  package.x ++
  #v[package.monitorPackage.setWidth 64,
    package.keypointCode,
    (package.segmentLimit ++ package.segmentTable).setWidth 64,
    package.baseConstant,
    package.processTimer.setWidth 64,
    package.untranslatable.toWord,
    package.trapPointer,
    package.debugList,
    (package.debugMask ++ (0 : BitVec 12) ++ package.largestRing).setWidth 64] ++
  package.stackTops.map VirtualAddress.toWord ++
  #v[(0 : Word)]

def ofWords (words : PackageWords) : ExchangePackage where
  p := .ofWord words[0]
  key := words[0].extractLsb' 48 6
  instructionMachine := words[1].extractLsb' 60 4
  virtualMachine := words[1].extractLsb' 56 4
  a := (words.extract 1 17).map VirtualAddress.ofWord
  flags := .ofBits (tagOf words[2])
  trapControl := .ofBits (tagOf words[3])
  userMask := tagOf words[4]
  monitorMask := tagOf words[5]
  userConditions := tagOf words[6]
  monitorConditions := tagOf words[7]
  lastProcessor := words[8].extractLsb' 48 8
  keypointMask := tagOf words[9]
  x := words.extract 17 33
  monitorPackage := words[33].setWidth 32
  keypointCode := words[34]
  segmentLimit := words[35].extractLsb' 32 12
  segmentTable := words[35].extractLsb' 0 32
  baseConstant := words[36]
  processTimer := words[37].setWidth 32
  untranslatable := .ofWord words[38]
  trapPointer := words[39]
  debugList := words[40]
  debugMask := words[41].extractLsb' 16 16
  largestRing := words[41].extractLsb' 0 4
  stackTops := (words.extract 42 57).map VirtualAddress.ofWord

end ExchangePackage

inductive PackageError where
  | misaligned (address : HalfWord)
  | unknownMachine (address : HalfWord) (machine : BitVec 4)
  | legacyInMonitorMode (address : HalfWord)
  | legacyInRingOne (address : HalfWord)
  deriving DecidableEq

namespace PackageError

def message : PackageError → String
  | .misaligned address =>
    "exchange package address " ++ hexNumeral address.toNat ++ " is not word aligned"
  | .unknownMachine address machine =>
    "exchange package at " ++ hexNumeral address.toNat ++ " has unsupported VMID " ++
      toString machine.toNat
  | .legacyInMonitorMode address =>
    "legacy exchange package at " ++ hexNumeral address.toNat ++ " cannot run in monitor mode"
  | .legacyInRingOne address =>
    "legacy exchange package at " ++ hexNumeral address.toNat ++ " cannot run in ring 1"

end PackageError

/-- The instruction set of a package is known, and the older one runs neither in monitor mode
nor in ring one. -/
def ExchangePackage.validate (package : ExchangePackage) (address : HalfWord) (toMonitor : Bool) :
    Except PackageError Unit :=
  if 1 < package.instructionMachine then .error (.unknownMachine address package.instructionMachine)
  else if package.instructionMachine = 1 then
    if toMonitor then .error (.legacyInMonitorMode address)
    else if package.p.ring = 1 then .error (.legacyInRingOne address)
    else .ok ()
  else .ok ()

namespace Activity

def readVector (address : Address) : (count : Nat) → Activity (Vector Word count)
  | 0 => pure #v[]
  | count + 1 => do
    let words ← readVector address count
    let word ← readWord (address + BitVec.ofNat 64 (8 * count))
    return words.push word

def readPackage (address : HalfWord) : Activity ExchangePackage := do
  return .ofWords (← readVector (address.setWidth 64) 58)

def writePackage (address : HalfWord) (package : ExchangePackage) : Activity Unit :=
  writeAll package.toWords.toList (address.setWidth 64)

end Activity

end Mainframe
