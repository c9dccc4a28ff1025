import Mainframe.Word.Basic

/-! Page table entries. An entry is found by the segment and page identifier it carries. -/

set_option autoImplicit false

namespace Mainframe

/-- The identifier of a page: its segment's identifier and the low 22 bits of its number. -/
def pageIdentifier (asid : BitVec 16) (page : HalfWord) : BitVec 38 := asid ++ page.setWidth 22

/-- A search goes on past an entry that `continues`. The frame is counted in units of 512
bytes. -/
@[ext] structure PageEntry where
  valid : Bool
  continues : Bool
  used : Bool
  modified : Bool
  identifier : Word
  frame : HalfWord
  deriving DecidableEq

namespace PageEntry

def ofWord (word : Word) : PageEntry where
  valid := word.getLsbD 63
  continues := word.getLsbD 62
  used := word.getLsbD 61
  modified := word.getLsbD 60
  identifier := (word.extractLsb' 22 38).setWidth 64
  frame := (word.extractLsb' 0 22).setWidth 32

/-- The identifier keeps 38 bits and the frame 22. -/
def toWord (entry : PageEntry) : Word :=
  BitVec.ofBool entry.valid ++ BitVec.ofBool entry.continues ++ BitVec.ofBool entry.used ++
    BitVec.ofBool entry.modified ++ entry.identifier.setWidth 38 ++ entry.frame.setWidth 22

@[simp] theorem toWord_ofWord (word : Word) : (ofWord word).toWord = word := by
  have flag (place : Nat) : BitVec.ofBool (word.getLsbD place) = word.extractLsb' place 1 := by
    apply BitVec.eq_of_getLsbD_eq
    intro bit inside
    have first : bit = 0 := by omega
    simp [first]
  have joined (high low : Nat) {width more : Nat} (meets : high = low + width) :
      word.extractLsb' high more ++ word.extractLsb' low width =
        word.extractLsb' low (more + width) :=
    BitVec.extractLsb'_append_extractLsb'_eq_extractLsb' meets
  have kept {width : Nat} (more : Nat) (field : BitVec width) (fits : width ≤ more) :
      (field.setWidth more).setWidth width = field := by
    rw [BitVec.setWidth_setWidth_of_le _ fits, BitVec.setWidth_eq]
  unfold ofWord toWord
  rw [flag, flag, flag, flag, joined 63 62 rfl, joined 62 61 rfl, joined 61 60 rfl,
    kept 64 _ (by decide), kept 32 _ (by decide), joined 60 22 rfl, joined 22 0 rfl]
  exact BitVec.extractLsb'_eq_self

def frameAddress (entry : PageEntry) : Word := entry.frame.setWidth 64 <<< 9

end PageEntry

end Mainframe
