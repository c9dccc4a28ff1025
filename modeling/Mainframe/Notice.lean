import Mainframe.Condition.Basic

/-! What a processor reports to whoever watches it. A notice never influences the processor. -/

set_option autoImplicit false

namespace Mainframe

inductive Happening where
  | translated (address : VirtualAddress) (modes : AccessModes)
      (outcome : Except TranslationFault Word)
  | raised (condition : Condition) (action : Action)
  | exchanged (toMonitor : Bool) (virtualMachine : BitVec 4)
  | called (caller target : VirtualAddress)
  | returned (callee target : VirtualAddress)
  | trapped (interrupted handler : VirtualAddress)
  | keypoint (selector : BitVec 4) (code : HalfWord)
  | legacyCodeChanged

structure Notice where
  processor : Nat
  happening : Happening

end Mainframe
