import Mainframe.Activation.EntryPoint
import Mainframe.Activation.Frame

/-! Traps. The interrupted activation is saved whole, together with the conditions that are
delivered to the handler. -/

set_option autoImplicit false

namespace Mainframe

namespace Execution

def enterHandler (monitorBits userBits : ConditionBits) : Execution VirtualAddress := do
  let interrupted ← get
  let view := interrupted.nativeView
  let pointer := VirtualAddress.ofWord interrupted.trapPointer
  let ring := min pointer.ring.toNat view.p.ring.toNat
  let entry ← resolveEntry pointer ring false
  let area : SaveArea := {
    returnAddress := view.p
    key := interrupted.key
    virtualMachine := interrupted.instructionSet.virtualMachine
    flags := interrupted.flags
    userMask := interrupted.userMask
    a := view.a
    x := view.x
    range := .all
    delivered := some (monitorBits, userBits) }
  let frame := area.address 0
  let top ← storeWords area.words frame
  if interrupted.instructionSet.isLegacy then Routine.report .legacyCodeChanged
  modify fun processor =>
    let native := { processor with instructionSet := .native, a := view.a, x := view.x }
    { (native.activate frame top view.p.ring entry.target.ring).bound entry.binding with
      p := entry.target
      nextAddress := entry.target
      currentAddress := entry.target }
  return entry.target

end Execution

namespace Routine

/-- Deliver the conditions that call for a trap or more to the trap handler. Traps are off while
it runs. If the handler cannot be entered, that is a condition of its own. -/
def enterTrap : Routine Unit := do
  let interrupted ← get
  let monitorBits := interrupted.deliverableMonitor
  let userBits := interrupted.deliverableUser
  -- Which conditions are delivered was settled while traps were still on.
  set { interrupted with trapControl := { interrupted.trapControl with enabled := false } }
  match ← (Execution.enterHandler monitorBits userBits).run with
  | .ok handler =>
    modify fun processor => { processor with
      monitorConditions := processor.monitorConditions &&& ~~~ monitorBits
      userConditions := processor.userConditions &&& ~~~ userBits }
    report (.trapped interrupted.p handler)
  | .error condition =>
    raise condition
    raise (.monitor .trapException)

end Routine

end Mainframe
