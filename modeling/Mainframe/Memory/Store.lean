import Std.Data.ExtTreeMap
import Mainframe.Word.Basic

/-! An unbounded array of words, all zero at first. Only the words that differ from zero take
room, so stores with the same contents are equal. -/

set_option autoImplicit false

namespace Mainframe

structure WordStore where
  entries : Std.ExtTreeMap Nat Word
  nonzero : ∀ index : Nat, entries[index]? ≠ some 0

namespace WordStore

def empty : WordStore where
  entries := ∅
  nonzero := by simp

def get (store : WordStore) (index : Nat) : Word := store.entries[index]?.getD 0

def set (store : WordStore) (index : Nat) (word : Word) : WordStore where
  entries := if word = 0 then store.entries.erase index else store.entries.insert index word
  nonzero := by
    intro other
    have kept := store.nonzero other
    by_cases isZero : word = 0
    · rw [if_pos isZero, Std.ExtTreeMap.getElem?_erase]
      split
      · simp
      · exact kept
    · rw [if_neg isZero, Std.ExtTreeMap.getElem?_insert]
      split
      · simpa using isZero
      · exact kept

def toList (store : WordStore) : List (Nat × Word) := store.entries.toList

@[simp] theorem get_empty (index : Nat) : empty.get index = 0 := by
  simp [get, empty]

theorem get_set (store : WordStore) (index other : Nat) (word : Word) :
    (store.set index word).get other = if index = other then word else store.get other := by
  unfold get set
  by_cases isZero : word = 0
  · simp only [isZero, if_pos, Std.ExtTreeMap.getElem?_erase, Nat.compare_eq_eq]
    split <;> simp
  · simp only [if_neg isZero, Std.ExtTreeMap.getElem?_insert, Nat.compare_eq_eq]
    split <;> simp

@[ext] theorem ext {left right : WordStore} (same : ∀ index, left.get index = right.get index) :
    left = right := by
  have entry (store : WordStore) (index : Nat) :
      store.entries[index]? = if store.get index = 0 then none else some (store.get index) := by
    have kept := store.nonzero index
    unfold get
    cases found : store.entries[index]? with
    | none => simp
    | some word =>
      have differs : word ≠ 0 := fun isZero => kept (by rw [found, isZero])
      simpa using differs
  have entries : left.entries = right.entries := by
    apply Std.ExtTreeMap.ext_getElem?
    intro index
    rw [entry left, entry right, same]
  cases left
  cases right
  simpa using entries

theorem set_get (store : WordStore) (index : Nat) : store.set index (store.get index) = store := by
  ext other : 1
  rw [get_set]
  split
  · next same => rw [same]
  · rfl

theorem set_set (store : WordStore) (index : Nat) (first second : Word) :
    (store.set index first).set index second = store.set index second := by
  ext other : 1
  rw [get_set, get_set, get_set]
  split <;> rfl

theorem set_comm (store : WordStore) {index other : Nat} (differ : index ≠ other)
    (first second : Word) :
    (store.set index first).set other second = (store.set other second).set index first := by
  ext place : 1
  simp only [get_set]
  split
  · next here => rw [if_neg (here ▸ differ)]
  · rfl

end WordStore

end Mainframe
