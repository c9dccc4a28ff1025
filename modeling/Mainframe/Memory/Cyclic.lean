import Mainframe.Memory.Bus
import Mainframe.Memory.Store

/-! A plain array of words in which every address selects a word, modulo the size. It only reads
and writes single words; all other accesses are built from these. -/

set_option autoImplicit false

namespace Mainframe

@[ext] structure CyclicMemory where
  sizeWords : Nat
  store : WordStore

namespace CyclicMemory

def zeroed (sizeWords : Nat) : CyclicMemory := ⟨sizeWords, .empty⟩

def slot (memory : CyclicMemory) (address : Address) : Nat := wordIndex address % memory.sizeWords

instance : Bus CyclicMemory where
  readWord memory address := memory.store.get (memory.slot address)
  writeWord memory address word :=
    { memory with store := memory.store.set (memory.slot address) word }

theorem readWord_writeWord (memory : CyclicMemory) (address other : Address) (word : Word) :
    Bus.readWord (Bus.writeWord memory address word) other =
      if memory.slot address = memory.slot other then word else Bus.readWord memory other :=
  WordStore.get_set memory.store (memory.slot address) (memory.slot other) word

end CyclicMemory

end Mainframe
