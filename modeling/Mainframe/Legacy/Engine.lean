import Mainframe.Legacy.Registers
import Mainframe.Memory.Activity

/-! The engine that executes the older instruction set on behalf of a processor. The processor
knows nothing of it but what one turn does to the registers and to memory. -/

set_option autoImplicit false

namespace Mainframe

/-- How a turn of the engine ends: an exchange jump calls the monitor, a halt stops. -/
inductive LegacyExit where
  | proceed
  | exchangeJump
  | halt
  deriving DecidableEq

structure LegacyTurn where
  exit : LegacyExit
  registers : LegacyRegisters
  memo : Nat

/-- An engine carries a number from each turn to the next. -/
structure LegacyEngine where
  memo : Nat
  turn : Nat → LegacyRegisters → Activity LegacyTurn

end Mainframe
