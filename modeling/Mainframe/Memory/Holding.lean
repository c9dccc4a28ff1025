import Mainframe.Memory.Bytes

/-! The ways in which a program holds a memory. Each passes some of the accesses on to the memory
and makes up the others anew from accesses to single words. -/

set_option autoImplicit false

namespace Mainframe

/-- The accesses that a memory offers. One that has no way of its own to move a run of bytes moves
it in words and single bytes. -/
structure Accesses (μ : Type) extends Bus μ where
  readBytes : μ → Nat → Address → List Byte × μ := fun memory count address =>
    (Activity.readBytes count address).perform memory
  writeBytes : μ → List Byte → Address → μ := fun memory bytes address =>
    ((Activity.writeBytes bytes address).perform memory).2

namespace Accesses

variable {μ : Type} (accesses : Accesses μ) (memory : μ)

def perform {α : Type} (activity : Activity α) : α × μ :=
  letI := accesses.toBus
  activity.perform memory

def readByte (address : Address) : Byte :=
  (accesses.perform memory (Activity.readByte address)).1

def writeByte (address : Address) (byte : Byte) : μ :=
  (accesses.perform memory (Activity.writeByte address byte)).2

end Accesses

inductive Holding where
  | owned
  | shared
  | borrowed (held : Holding)
  | boxed (held : Holding)
  deriving DecidableEq

/-- What a memory offers that is held in some way. Real memory and plain arrays of words have no
way of their own to move a run of bytes. A shared reference and a box pass on the accesses to words,
and only an exclusive reference passes on the others. -/
def Holding.accesses {μ : Type} [Bus μ] : Holding → Accesses μ
  | .owned => {}
  | .shared => {
    readWord := Bus.readWord
    writeWord := Bus.writeWord
    modifyWord := Bus.modifyWord }
  | .borrowed held => {
    readWord := held.accesses.readWord
    writeWord := held.accesses.writeWord
    modifyWord := held.accesses.modifyWord
    readBytes := held.accesses.readBytes
    writeBytes := held.accesses.writeBytes }
  | .boxed held => {
    readWord := held.accesses.readWord
    writeWord := held.accesses.writeWord
    modifyWord := held.accesses.modifyWord }

end Mainframe
