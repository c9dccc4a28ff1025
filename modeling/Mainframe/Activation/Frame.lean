import Mainframe.Activation.SaveArea

/-! Changing from one activation to another: what a save area does to the registers when it is
entered and when it is left. -/

set_option autoImplicit false

namespace Mainframe

namespace Processor

/-- Enter a new activation: the save area lies between `frame` and `top` on the caller's stack.
A call into another ring goes on with the stack of that ring. -/
def activate (processor : Processor) (frame top : VirtualAddress) (callerRing newRing : Ring) :
    Processor :=
  let recorded := processor.withStackTop callerRing.toNat top
  let stack := if newRing = callerRing then top else recorded.stackTop newRing.toNat
  let largest := callerRing.setWidth 8
  let entered := { recorded with
    largestRing := if recorded.largestRing < largest then largest else recorded.largestRing
    flags := .clear }
  ((entered.withAddressRegister 0 stack).withAddressRegister 1 stack).withAddressRegister 2 frame

def bound (processor : Processor) : Option VirtualAddress → Processor
  | some binding => processor.withAddressRegister 3 binding
  | none => processor

def restoreAddresses (processor : Processor) (floor : Nat) (numbers : List RegisterNumber)
    (words : List Word) : Processor :=
  (numbers.zip words).foldl
    (fun restored (number, word) =>
      restored.withAddressRegister number ((VirtualAddress.ofWord word).ringAtLeast floor))
    processor

def restoreWords (processor : Processor) (numbers : List RegisterNumber) (words : List Word) :
    Processor :=
  (numbers.zip words).foldl (fun restored (number, word) => restored.withWordRegister number word)
    processor

/-- Put back the activation whose save area was read: the return address, the words after it,
and the registers of the range. A return to another ring leaves the stack of this one. -/
def resume (processor : Processor) (frame returnAddress : VirtualAddress)
    (first second third : Word) (addresses words : List Word) : Processor :=
  let descriptor := FrameDescriptor.ofBits (tagOf second)
  let floor := max frame.ring.toNat returnAddress.ring.toNat
  let current := processor.currentAddress.ring
  let left := if returnAddress.ring = current then processor
    else processor.withStackTop current.toNat (processor.addressRegister 0)
  let fixed := left.restoreAddresses floor [0, 1, 2] [first, second, third]
  let restored := (fixed.restoreAddresses floor descriptor.range.addressNumbers
    addresses).restoreWords descriptor.range.wordNumbers words
  { restored with
    userMask := tagOf third
    flags := descriptor.flags
    nextAddress := returnAddress }

def nativeView (processor : Processor) : LegacyRegisters.Native :=
  match processor.instructionSet with
  | .native => ⟨processor.p, processor.a, processor.x⟩
  | .legacy registers => registers.toNative processor.p

end Processor

end Mainframe
