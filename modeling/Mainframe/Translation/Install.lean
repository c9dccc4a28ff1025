import Mainframe.Translation.Search

/-! Entering segments and pages in their tables. -/

set_option autoImplicit false

namespace Mainframe.TranslationUnit

def installSegment (unit : TranslationUnit) (segment : Nat)
    (descriptor : SegmentDescriptor) : Activity Bool :=
  if unit.segmentLimit.toNat < segment then pure false
  else do
    Activity.writeWord (unit.segmentEntryAddress segment) descriptor.toWord
    return true

def findSlot (unit : TranslationUnit) (identifier : BitVec 38) :
    List PageIndex → Activity (Option (List PageIndex × PageIndex × PageEntry))
  | [] => pure none
  | index :: rest => do
    let entry := PageEntry.ofWord (← Activity.readWord (unit.pageEntryAddress index))
    if !entry.valid || entry.identifier == identifier.setWidth 64 then
      return some ([], index, entry)
    else
      let found ← unit.findSlot identifier rest
      return found.map fun (passed, slot) => (index :: passed, slot)

def continueBit : Word := Word.selector 1

def passOver (unit : TranslationUnit) : List PageIndex → Activity Unit
  | [] => pure ()
  | index :: rest => do
    let word ← Activity.readWord (unit.pageEntryAddress index)
    Activity.writeWord (unit.pageEntryAddress index) (word ||| continueBit)
    unit.passOver rest

/-- Enter a page at the first place of its window that is free or holds the page already, and
make the search reach it. The result is the place, or nothing when the window is full. -/
def installPage (unit : TranslationUnit) (asid : BitVec 16) (page frame : HalfWord) :
    Activity (Option PageIndex) := do
  let identifier := pageIdentifier asid page
  match ← unit.findSlot identifier (unit.window asid page) with
  | none => return none
  | some (passed, index, old) =>
    unit.passOver passed
    -- Pages that lie further on must stay within reach.
    let entry : PageEntry := {
      valid := true
      continues := old.continues
      used := false
      modified := false
      identifier := identifier.setWidth 64
      frame := (frame.setWidth 22).setWidth 32 }
    Activity.writeWord (unit.pageEntryAddress index) entry.toWord
    return some index

end Mainframe.TranslationUnit
