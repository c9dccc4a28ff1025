import Mainframe.Processor.Access
import Mainframe.Translation.Search

/-! Code base pointers, through which calls between segments and traps find their code. -/

set_option autoImplicit false

namespace Mainframe

def pointerIsValid (word : Word) : Bool := word.getLsbD 62

/-- A code base pointer with this bit set is followed by a pointer to a binding section. -/
def pointerIsExternal (word : Word) : Bool := word.getLsbD 63

structure EntryPoint where
  target : VirtualAddress
  binding : Option VirtualAddress

namespace Execution

def segmentWith (test : SegmentDescriptor → Bool) (refusal : MonitorCondition)
    (address : VirtualAddress) : Execution SegmentDescriptor := do
  match ← (← get).translation.segmentDescriptor address.segment.toNat with
  | some descriptor =>
    if test descriptor then return descriptor
    else faultAt address refusal
  | none => faultAt address refusal

def requireBindingSection (address : VirtualAddress) : Execution Unit := do
  let _ ← segmentWith (fun descriptor => descriptor.valid && descriptor.isBindingSection)
    .accessViolation address

def codeSegment : VirtualAddress → Execution SegmentDescriptor :=
  segmentWith (·.valid) .invalidSegmentRingZero

/-- Follow a code base pointer for a caller in a ring. With `guarded` set, the pointer and the
binding section that it names must lie in binding sections. The code runs in the lesser of the
caller's ring and the pointer's, but not below the lowest ring that may execute it, and never
in a ring above the caller's. -/
def resolveEntry (pointer : VirtualAddress) (ring : Nat) (guarded : Bool) :
    Execution EntryPoint := do
  if guarded then requireBindingSection pointer
  let word ← loadWord pointer
  if !pointerIsValid word then faultAt pointer .environmentSpecification
  let code := VirtualAddress.ofWord word
  let binding ← if pointerIsExternal word then do
      let sectionAddress := VirtualAddress.ofWord (← loadWord (pointer.offset 8))
      if guarded then requireBindingSection sectionAddress
      pure (some (sectionAddress.ringAtLeast ring))
    else pure none
  let descriptor ← codeSegment code
  let target := max (min ring code.ring.toNat) descriptor.r1.toNat
  if ring < target then faultAt code .outwardCallInwardReturn
  return { target := code.withRing (BitVec.ofNat 4 target), binding }

end Execution

end Mainframe
