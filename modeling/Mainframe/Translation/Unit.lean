import Mainframe.Translation.Fault
import Mainframe.Translation.Page
import Mainframe.Translation.Segment
import Mainframe.Memory.Bus

/-! The registers of address translation: where the segment and page tables lie, the size of a
page, and what the last translations left behind. -/

set_option autoImplicit false

namespace Mainframe

abbrev PageIndex := BitVec 32

/-- The largest segment number in the table is `segmentLimit`; the page table has 512 entries
for each unit of its length and 512 more. -/
@[ext] structure TranslationUnit where
  segmentTable : HalfWord
  segmentLimit : SegmentNumber
  pageTable : HalfWord
  pageTableLength : Byte
  pageSizeMask : BitVec 7
  untranslatable : VirtualAddress
  executePrivilege : ExecutePrivilege
  deriving DecidableEq

namespace TranslationUnit

def initial : TranslationUnit where
  segmentTable := 0
  segmentLimit := 0
  pageTable := 0
  pageTableLength := 0
  pageSizeMask := 0x7F
  untranslatable := .zero
  executePrivilege := .nonExecutable

/-- Binary logarithm of the page size: nine, and one more for each clear bit of the mask. -/
def pageShift (unit : TranslationUnit) : Nat :=
  9 + (List.range 7).countP fun place => !unit.pageSizeMask.getLsbD place

def pageSize (unit : TranslationUnit) : Nat := 1 <<< unit.pageShift

def offsetMask (unit : TranslationUnit) : HalfWord := BitVec.ofNat 32 (unit.pageSize - 1)

def pageOf (unit : TranslationUnit) (byteNumber : HalfWord) : HalfWord :=
  byteNumber >>> unit.pageShift

def pageRemaining (unit : TranslationUnit) (byteNumber : HalfWord) : Nat :=
  unit.pageSize - byteNumber.toNat % unit.pageSize

def indexMask (unit : TranslationUnit) : PageIndex :=
  unit.pageTableLength.setWidth 23 ++ BitVec.allOnes 9

def pageTableEntries (unit : TranslationUnit) : Nat := unit.indexMask.toNat + 1

def hash (unit : TranslationUnit) (asid : BitVec 16) (page : HalfWord) : PageIndex :=
  (asid.setWidth 32 ^^^ page) &&& unit.indexMask

def longestSearch : Nat := 32

def window (unit : TranslationUnit) (asid : BitVec 16) (page : HalfWord) : List PageIndex :=
  (List.range longestSearch).map fun probe =>
    (unit.hash asid page + BitVec.ofNat 32 probe) &&& unit.indexMask

def pageEntryAddress (unit : TranslationUnit) (index : PageIndex) : Address :=
  unit.pageTable.setWidth 64 + index.setWidth 64 * 8

def segmentEntryAddress (unit : TranslationUnit) (segment : Nat) : Address :=
  unit.segmentTable.setWidth 64 + BitVec.ofNat 64 (8 * segment)

end TranslationUnit

end Mainframe
