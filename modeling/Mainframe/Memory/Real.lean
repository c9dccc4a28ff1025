import Mainframe.Memory.Bus
import Mainframe.Memory.Store
import Mainframe.Text.Hex

/-! Central memory. Addresses beyond its size either wrap or meet nothing at all: reads there
give all ones and writes are lost. -/

set_option autoImplicit false

namespace Mainframe

inductive MemoryError where
  | zeroSize
  | tooLarge (words : Nat)
  deriving DecidableEq

/-- Real addresses have 32 bits, so memory ends at this number of words. -/
def largestMemory : Nat := 1 <<< 29

def MemoryError.message : MemoryError → String
  | .zeroSize => "real memory size must be non-zero"
  | .tooLarge words =>
    "real memory size " ++ hexNumeral words ++ " words exceeds the " ++
      hexNumeral largestMemory ++ "-word RMA space"

structure MemorySettings where
  sizeWords : Nat
  wrapsAddresses : Bool
  deriving DecidableEq

namespace MemorySettings

def standard : MemorySettings := ⟨1 <<< 20, false⟩

def validate (settings : MemorySettings) : Except MemoryError Unit :=
  if settings.sizeWords = 0 then .error .zeroSize
  else if largestMemory < settings.sizeWords then .error (.tooLarge settings.sizeWords)
  else .ok ()

end MemorySettings

@[ext] structure RealMemory where
  sizeWords : Nat
  wraps : Bool
  store : WordStore

namespace RealMemory

def create (settings : MemorySettings) : Except MemoryError RealMemory := do
  settings.validate
  return { sizeWords := settings.sizeWords, wraps := settings.wrapsAddresses, store := .empty }

def sizeBytes (memory : RealMemory) : Nat := memory.sizeWords * 8

def slot (memory : RealMemory) (address : Address) : Option Nat :=
  if wordIndex address < memory.sizeWords then some (wordIndex address)
  else if memory.wraps then some (wordIndex address % memory.sizeWords)
  else none

def load (memory : RealMemory) (address : Address) : Word :=
  match memory.slot address with
  | some index => memory.store.get index
  | none => Word.allOnes

def save (memory : RealMemory) (address : Address) (word : Word) : RealMemory :=
  match memory.slot address with
  | some index => { memory with store := memory.store.set index word }
  | none => memory

def update (memory : RealMemory) (address : Address) (change : Word → Word) : Word × RealMemory :=
  match memory.slot address with
  | some index =>
    let old := memory.store.get index
    (old, { memory with store := memory.store.set index (change old) })
  | none => (Word.allOnes, memory)

theorem slot_save (memory : RealMemory) (address other : Address) (word : Word) :
    (memory.save address word).slot other = memory.slot other := by
  unfold save
  split <;> rfl

theorem load_save (memory : RealMemory) (address other : Address) (word : Word) :
    (memory.save address word).load other =
      if memory.slot other = memory.slot address ∧ memory.slot other ≠ none then word
      else memory.load other := by
  unfold load
  rw [slot_save]
  unfold save
  cases memory.slot address with
  | none => cases memory.slot other <;> simp
  | some index =>
    cases memory.slot other with
    | none => simp
    | some place => simp [WordStore.get_set, eq_comm]

theorem update_eq (memory : RealMemory) (address : Address) (change : Word → Word) :
    memory.update address change =
      (memory.load address, memory.save address (change (memory.load address))) := by
  unfold update load save
  cases memory.slot address <;> rfl

def saveAll (memory : RealMemory) (address : Address) : List Word → RealMemory
  | [] => memory
  | word :: rest => (memory.save address word).saveAll (address + 8) rest

instance : Bus RealMemory where
  readWord := load
  writeWord := save
  modifyWord := update

end RealMemory

end Mainframe
