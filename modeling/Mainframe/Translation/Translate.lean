import Mainframe.Translation.Search

/-! Translation of a virtual address to a real one, with the rights of the access checked. -/

set_option autoImplicit false

namespace Mainframe

def SegmentDescriptor.grants (descriptor : SegmentDescriptor) (modes : AccessModes) (ring : Ring)
    (key : Byte) : Bool :=
  (!modes.execute || descriptor.canExecute ring key) &&
    (!modes.read || descriptor.canRead ring key) &&
    (!modes.write || descriptor.canWrite ring key)

def PageEntry.touched (entry : PageEntry) (modes : AccessModes) : PageEntry :=
  { entry with used := true, modified := entry.modified || modes.write }

namespace TranslationUnit

/-- The real address and the execute privilege of the segment. The entry of the page is written
back only if the access changes it. -/
def locate (unit : TranslationUnit) (address : VirtualAddress) (modes : AccessModes) (key : Byte) :
    Activity (Except TranslationFault (Address × ExecutePrivilege)) := do
  match ← unit.resolveSegment address with
  | .error fault => return .error fault
  | .ok descriptor =>
    if descriptor.grants modes address.ring key then
      match ← unit.findPage descriptor.asid address.byteNumber with
      | none => return .error ⟨.pageFault, address⟩
      | some lookup =>
        let touched := lookup.entry.touched modes
        if touched ≠ lookup.entry then
          Activity.writeWord lookup.entryAddress touched.toWord
        return .ok (lookup.address, descriptor.execute)
    else return .error ⟨.accessViolation, address⟩

/-- A failure leaves the address as the untranslatable pointer; a success in fetching leaves the
segment's execute privilege. -/
def translate (unit : TranslationUnit) (address : VirtualAddress) (modes : AccessModes)
    (key : Byte) : Activity (Except TranslationFault Address × TranslationUnit) := do
  match ← unit.locate address modes key with
  | .error fault => return (.error fault, { unit with untranslatable := address })
  | .ok (real, privilege) =>
    return (.ok real, if modes.execute then { unit with executePrivilege := privilege } else unit)

end TranslationUnit

end Mainframe
