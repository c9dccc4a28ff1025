import Mainframe.Memory.Activity
import Mainframe.Translation.Unit

/-! Finding segments and pages in their tables. Nothing here changes memory. -/

set_option autoImplicit false

namespace Mainframe

structure PageLookup where
  index : PageIndex
  entryAddress : Address
  entry : PageEntry
  address : Address

namespace TranslationUnit

def segmentDescriptor (unit : TranslationUnit) (segment : Nat) :
    Activity (Option SegmentDescriptor) :=
  if unit.segmentLimit.toNat < segment then pure none
  else do
    let word ← Activity.readWord (unit.segmentEntryAddress segment)
    return some (.ofWord word)

/-- The valid segment that an address names. Byte numbers have their leading bit clear, and no
address of ring zero names a segment. -/
def resolveSegment (unit : TranslationUnit) (address : VirtualAddress) :
    Activity (Except TranslationFault SegmentDescriptor) :=
  if address.byteNumber.msb then pure (.error ⟨.addressSpecification, address⟩)
  else if address.ring = 0 then pure (.error ⟨.invalidSegment, address⟩)
  else do
    match ← unit.segmentDescriptor address.segment.toNat with
    | some descriptor =>
      if descriptor.valid then return .ok descriptor
      else return .error ⟨.invalidSegment, address⟩
    | none => return .error ⟨.invalidSegment, address⟩

def findEntry (unit : TranslationUnit) (identifier : BitVec 38) :
    List PageIndex → Activity (Option (PageIndex × PageEntry))
  | [] => pure none
  | index :: rest => do
    let entry := PageEntry.ofWord (← Activity.readWord (unit.pageEntryAddress index))
    if entry.valid && entry.identifier == identifier.setWidth 64 then
      return some (index, entry)
    else if entry.continues then unit.findEntry identifier rest
    else return none

def findPage (unit : TranslationUnit) (asid : BitVec 16) (byteNumber : HalfWord) :
    Activity (Option PageLookup) := do
  let page := unit.pageOf byteNumber
  let found ← unit.findEntry (pageIdentifier asid page) (unit.window asid page)
  return found.map fun (index, entry) => {
    index
    entryAddress := unit.pageEntryAddress index
    entry
    address := entry.frameAddress ||| (byteNumber &&& unit.offsetMask).setWidth 64 }

/-- Look an address up without checking any right. A missing page is no fault here. -/
def probe (unit : TranslationUnit) (address : VirtualAddress) :
    Activity (Except TranslationFault (Option PageLookup)) := do
  match ← unit.resolveSegment address with
  | .error fault => return .error fault
  | .ok descriptor => return .ok (← unit.findPage descriptor.asid address.byteNumber)

end TranslationUnit

end Mainframe
