import Mainframe.Activation.EntryPoint
import Mainframe.Activation.Frame

/-! Calls and returns. A call leaves the activation of the caller in a save area on its stack; a
return takes it from there. -/

set_option autoImplicit false

namespace Mainframe

namespace Execution

def call (length : Nat) (entry : EntryPoint) (argument : VirtualAddress) : Execution Unit := do
  let caller ← get
  let frame := caller.addressRegister 0
  let area : SaveArea := {
    returnAddress := caller.currentAddress.offset length
    key := caller.key
    virtualMachine := 0
    flags := caller.flags
    userMask := caller.userMask
    a := caller.a
    x := caller.x
    range := .ofBits ((caller.wordRegister 0).setWidth 12)
    delivered := none }
  let top ← storeWords area.words frame
  modify fun processor =>
    let entered := (processor.activate frame top caller.currentAddress.ring entry.target.ring).bound
      entry.binding
    { entered.withAddressRegister 4 argument with nextAddress := entry.target }
  Routine.report (.called caller.currentAddress entry.target)

/-- Return to the activation saved at A2. A return leads to the same ring or a higher one, and
is refused while the frame is critical. A frame of a trap turns traps on again. -/
def returnFromCall : Execution Unit := do
  let callee ← get
  let frame := callee.addressRegister 2
  let zeroth ← loadWord frame
  let returnAddress := VirtualAddress.ofWord zeroth
  if returnAddress.ring < callee.currentAddress.ring then
    faultAt returnAddress .outwardCallInwardReturn
  if callee.flags.criticalFrame then userFault .criticalFrameFlag
  -- No register changes before the last word has been read.
  let first ← loadWord (frame.offset 8)
  let second ← loadWord (frame.offset 16)
  let third ← loadWord (frame.offset 24)
  let descriptor := FrameDescriptor.ofBits (tagOf second)
  let addressCount := descriptor.range.addressNumbers.length
  let addresses ← loadWords addressCount (frame.offset 32)
  let words ← loadWords descriptor.range.wordNumbers.length (frame.offset (32 + 8 * addressCount))
  modify fun processor =>
    { processor.resume frame returnAddress first second third addresses words with
      nextKey := ((tagOf zeroth).setWidth 6).setWidth 8 }
  if first.extractLsb' 60 4 = 1 then
    modify fun processor => { processor with
      instructionSet := .legacy (.ofNative ⟨returnAddress, processor.a, processor.x⟩) }
    Routine.report .legacyCodeChanged
  Routine.report (.returned callee.currentAddress returnAddress)
  if descriptor.isTrap then
    modify fun processor => { processor with
      trapControl := { processor.trapControl with enabled := true } }
    Routine.rescan

def popFrame : Execution Unit := do
  let callee ← get
  let frame := callee.addressRegister 2
  let zeroth ← loadWord frame
  if (VirtualAddress.ofWord zeroth).ring ≠ callee.currentAddress.ring then userFault .interRingPop
  let second ← loadWord (frame.offset 16)
  let third ← loadWord (frame.offset 24)
  modify fun processor =>
    ((processor.withAddressRegister 0 frame).withAddressRegister 1
      (processor.ringAdjusted (.ofWord second))).withAddressRegister 2
      (processor.ringAdjusted (.ofWord third))

end Execution

end Mainframe
