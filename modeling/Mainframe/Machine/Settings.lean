import Mainframe.Memory.Real
import Mainframe.Exchange.Package

/-! The settings that a machine is built from, and what makes them acceptable. -/

set_option autoImplicit false

namespace Mainframe

structure ProcessorSettings where
  count : Nat
  pageSizeMask : Byte
  startRing : Byte
  startHalted : Bool
  monitorMask : ConditionBits
  userMask : ConditionBits
  monitorPackage : Option HalfWord
  jobPackage : Option HalfWord
  deriving DecidableEq

structure Settings where
  memory : MemorySettings
  processors : ProcessorSettings
  deriving DecidableEq

inductive SettingsError where
  | malformed
  | memory (error : MemoryError)
  | processorCount (count : Nat)
  | startRing (ring : Byte)
  | pageSizeMask (mask : Byte)
  | misalignedPackage (address : HalfWord)
  | packageOutOfRange (address : HalfWord) (sizeBytes : Nat)
  deriving DecidableEq

def mostProcessors : Nat := 16

def packageBytes : Nat := 58 * 8

namespace SettingsError

def message : SettingsError → String
  | .malformed => "malformed machine configuration"
  | .memory error => error.message
  | .processorCount count =>
    "processor count " ++ toString count ++ " outside 1..=" ++ toString mostProcessors
  | .startRing ring => "ring " ++ toString ring.toNat ++ " is not a valid starting ring"
  | .pageSizeMask mask => "page size mask " ++ hexNumeral mask.toNat ++ " wider than 7 bits"
  | .misalignedPackage address => PackageError.message (.misaligned address)
  | .packageOutOfRange address sizeBytes =>
    "exchange package at " ++ hexNumeral address.toNat ++ " does not fit in " ++
      hexNumeral sizeBytes ++ " bytes of memory"

end SettingsError

namespace ProcessorSettings

def standard : ProcessorSettings where
  count := 1
  pageSizeMask := 0x7F
  startRing := 1
  startHalted := false
  monitorMask := 0xFFFF
  userMask := 0xFFFF
  monitorPackage := none
  jobPackage := none

def packages (settings : ProcessorSettings) : List HalfWord :=
  settings.monitorPackage.toList ++ settings.jobPackage.toList

def requireAligned (address : HalfWord) : Except SettingsError Unit :=
  if address.toNat % 8 = 0 then .ok () else .error (.misalignedPackage address)

def validate (settings : ProcessorSettings) : Except SettingsError Unit :=
  if settings.count = 0 ∨ mostProcessors < settings.count then
    .error (.processorCount settings.count)
  else if settings.startRing = 0 ∨ 15 < settings.startRing then
    .error (.startRing settings.startRing)
  else if 0x7F < settings.pageSizeMask then .error (.pageSizeMask settings.pageSizeMask)
  else settings.packages.forM requireAligned

end ProcessorSettings

namespace Settings

def standard : Settings := ⟨.standard, .standard⟩

/-- A package must lie within memory, unless addresses wrap. -/
def requireRoom (memory : MemorySettings) (address : HalfWord) : Except SettingsError Unit :=
  let sizeBytes := memory.sizeWords * 8
  if sizeBytes < address.toNat + packageBytes ∧ ¬ memory.wrapsAddresses then
    .error (.packageOutOfRange address sizeBytes)
  else .ok ()

def validate (settings : Settings) : Except SettingsError Unit := do
  settings.memory.validate.mapError .memory
  settings.processors.validate
  settings.processors.packages.forM (requireRoom settings.memory)

end Settings

end Mainframe
