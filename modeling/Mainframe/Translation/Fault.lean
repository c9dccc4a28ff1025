import Mainframe.Address

/-! What an access asks for, and the ways in which a translation fails. -/

set_option autoImplicit false

namespace Mainframe

/-- The modes requested of one access; every requested mode is checked. -/
structure AccessModes where
  execute : Bool
  read : Bool
  write : Bool
  deriving DecidableEq

namespace AccessModes

def forExecute : AccessModes := ⟨true, false, false⟩
def forRead : AccessModes := ⟨false, true, false⟩
def forWrite : AccessModes := ⟨false, false, true⟩
def forUpdate : AccessModes := ⟨false, true, true⟩

def ofBits (bits : BitVec 3) : AccessModes :=
  ⟨bits.getLsbD 0, bits.getLsbD 1, bits.getLsbD 2⟩

def bits (modes : AccessModes) : BitVec 3 :=
  BitVec.ofBool modes.write ++ BitVec.ofBool modes.read ++ BitVec.ofBool modes.execute

@[simp] theorem ofBits_bits (modes : AccessModes) : ofBits modes.bits = modes := by
  rcases modes with ⟨_ | _, _ | _, _ | _⟩ <;> rfl

@[simp] theorem bits_ofBits (bits : BitVec 3) : (ofBits bits).bits = bits := by
  revert bits
  decide

end AccessModes

inductive FaultKind where
  | addressSpecification
  | invalidSegment
  | accessViolation
  | pageFault
  deriving DecidableEq

structure TranslationFault where
  kind : FaultKind
  address : VirtualAddress
  deriving DecidableEq

namespace TranslationFault

def message (fault : TranslationFault) : String :=
  let failure := match fault.kind with
    | .addressSpecification => "address specification error"
    | .invalidSegment => "invalid segment"
    | .accessViolation => "access violation"
    | .pageFault => "page table search without find"
  failure ++ " at " ++ fault.address.text

end TranslationFault

end Mainframe
