import Mainframe.Word.Basic

/-! Memories as processors see them: words at byte addresses. The word at an address is the one
that contains the addressed byte. -/

set_option autoImplicit false

namespace Mainframe

abbrev Address := BitVec 64

def wordIndex (address : Address) : Nat := (address >>> 3).toNat

class Bus (μ : Type) where
  readWord : μ → Address → Word
  writeWord : μ → Address → Word → μ
  /-- Change a word by a function of its old value, which is the result. -/
  modifyWord : μ → Address → (Word → Word) → Word × μ := fun memory address change =>
    (readWord memory address, writeWord memory address (change (readWord memory address)))

end Mainframe
