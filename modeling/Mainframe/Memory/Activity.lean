import Mainframe.Memory.Bus
import Mainframe.Notice

/-! Activities: what a processor does to memory, as a tree of requests in which each reply
selects the continuation. An activity knows no memory until it is performed on one, so every
law about activities holds on every bus, and notices cannot influence what happens. -/

set_option autoImplicit false

namespace Mainframe

inductive Activity (α : Type) where
  | done (result : α)
  | read (address : Address) (next : Word → Activity α)
  | write (address : Address) (word : Word) (next : Activity α)
  | modify (address : Address) (change : Word → Word) (next : Word → Activity α)
  | notify (notice : Notice) (next : Activity α)

namespace Activity

variable {α β γ μ : Type}

def bind : Activity α → (α → Activity β) → Activity β
  | .done result, continuation => continuation result
  | .read address next, continuation => .read address fun word => (next word).bind continuation
  | .write address word next, continuation => .write address word (next.bind continuation)
  | .modify address change next, continuation =>
    .modify address change fun word => (next word).bind continuation
  | .notify notice next, continuation => .notify notice (next.bind continuation)

instance : Monad Activity where
  pure := .done
  bind := bind

def perform [Bus μ] : Activity α → μ → α × μ
  | .done result, memory => (result, memory)
  | .read address next, memory => (next (Bus.readWord memory address)).perform memory
  | .write address word next, memory => next.perform (Bus.writeWord memory address word)
  | .modify address change next, memory =>
    let (old, changed) := Bus.modifyWord memory address change
    (next old).perform changed
  | .notify _ next, memory => next.perform memory

def notices [Bus μ] : Activity α → μ → List Notice
  | .done _, _ => []
  | .read address next, memory => (next (Bus.readWord memory address)).notices memory
  | .write address word next, memory => next.notices (Bus.writeWord memory address word)
  | .modify address change next, memory =>
    let (old, changed) := Bus.modifyWord memory address change
    (next old).notices changed
  | .notify notice next, memory => notice :: next.notices memory

theorem bind_done (activity : Activity α) : activity.bind .done = activity := by
  induction activity with
  | done => rfl
  | read address next ih => simp only [bind, ih]
  | write address word next ih => simp only [bind, ih]
  | modify address change next ih => simp only [bind, ih]
  | notify notice next ih => simp only [bind, ih]

theorem bind_assoc (activity : Activity α) (first : α → Activity β) (second : β → Activity γ) :
    (activity.bind first).bind second = activity.bind fun result => (first result).bind second := by
  induction activity with
  | done => rfl
  | read address next ih => simp only [bind, ih]
  | write address word next ih => simp only [bind, ih]
  | modify address change next ih => simp only [bind, ih]
  | notify notice next ih => simp only [bind, ih]

instance : LawfulMonad Activity := LawfulMonad.mk' Activity
  (fun activity => bind_done activity)
  (fun _ _ => rfl)
  (fun activity first second => bind_assoc activity first second)

theorem perform_bind [Bus μ] (activity : Activity α) (continuation : α → Activity β) (memory : μ) :
    (activity >>= continuation).perform memory =
      (continuation (activity.perform memory).1).perform (activity.perform memory).2 := by
  change (activity.bind continuation).perform memory = _
  induction activity generalizing memory with
  | done => rfl
  | read address next ih => exact ih _ memory
  | write address word next ih => exact ih _
  | modify address change next ih => exact ih _ _
  | notify notice next ih => exact ih memory

@[simp] theorem perform_pure [Bus μ] (result : α) (memory : μ) :
    (pure result : Activity α).perform memory = (result, memory) := rfl

@[simp] theorem notices_pure [Bus μ] (result : α) (memory : μ) :
    (pure result : Activity α).notices memory = [] := rfl

def readWord (address : Address) : Activity Word := .read address .done

def writeWord (address : Address) (word : Word) : Activity Unit := .write address word (.done ())

def modifyWord (address : Address) (change : Word → Word) : Activity Word :=
  .modify address change .done

def give (notice : Notice) : Activity Unit := .notify notice (.done ())

def readAll : Nat → Address → Activity (List Word)
  | 0, _ => pure []
  | count + 1, address => do
    let word ← readWord address
    let rest ← readAll count (address + 8)
    return word :: rest

def writeAll : List Word → Address → Activity Unit
  | [], _ => pure ()
  | word :: rest, address => do
    writeWord address word
    writeAll rest (address + 8)

end Activity

end Mainframe
