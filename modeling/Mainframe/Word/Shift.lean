import Mainframe.Word.Basic

/-! Word shifts by a signed count: positive counts shift left, negative ones right. -/

set_option autoImplicit false

namespace Mainframe.Word

/-- Counts of the word length or more clear the word. -/
def shiftLogical (word : Word) (count : Int) : Word :=
  if 64 ≤ count.natAbs then 0
  else if 0 ≤ count then word <<< count.natAbs
  else word >>> count.natAbs

/-- Right shifts copy the sign bit; left shifts are logical. -/
def shiftArithmetic (word : Word) (count : Int) : Word :=
  if 0 ≤ count then shiftLogical word count
  else word.sshiftRight (min count.natAbs 63)

def shiftCircular (word : Word) (count : Int) : Word :=
  if 0 ≤ count then word.rotateLeft (count.natAbs % 64)
  else word.rotateRight (count.natAbs % 64)

end Mainframe.Word
