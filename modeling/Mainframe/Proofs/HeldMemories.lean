import Mainframe.Memory.Holding
import Mainframe.Proofs.BytewiseMemory

/-! Memories as programs hold them. Through every kind of reference and box, a run of bytes is moved
as if each byte were moved on its own, and a byte that is written changes nothing but itself. -/

set_option autoImplicit false

namespace Mainframe

variable {μ : Type}

structure Accesses.Bytewise [Bus μ] [SlottedBus μ] (accesses : Accesses μ) : Prop where
  readBytes (memory : μ) (count : Nat) (address : Address) :
    accesses.readBytes memory count address =
      ((run count address).map (accesses.readByte memory), memory)
  writeBytes (memory : μ) (bytes : List Byte) (address : Address) :
    accesses.writeBytes memory bytes address =
      ((run bytes.length address).zip bytes).foldl
        (fun memory (place, byte) => accesses.writeByte memory place byte) memory
  readByte_writeByte (memory : μ) (address other : Address) (byte : Byte) :
    accesses.readByte (accesses.writeByte memory address byte) other =
      if SlottedBus.slot memory other = SlottedBus.slot memory address ∧
          SlottedBus.slot memory other ≠ none ∧
          Activity.byteIndex other = Activity.byteIndex address
      then byte else accesses.readByte memory other
  readByte_missing (memory : μ) {address : Address} :
    SlottedBus.slot memory address = none → accesses.readByte memory address = 0xFF
  modifyWord (memory : μ) (address : Address) (change : Word → Word) :
    accesses.modifyWord memory address change =
      (accesses.readWord memory address,
        accesses.writeWord memory address (change (accesses.readWord memory address)))

namespace Activity

variable [Bus μ] (memory : μ)

theorem perform_writeEach (bytes : List Byte) (address : Address) :
    ((writeEach bytes address).perform memory).2 =
      ((run bytes.length address).zip bytes).foldl
        (fun memory (place, byte) => ((writeByte place byte).perform memory).2) memory := by
  induction bytes generalizing memory address with
  | nil => rfl
  | cons byte rest ih =>
    rw [writeEach, perform_bind]
    exact ih _ _

theorem byteAt_allOnes (address : Address) : Word.allOnes.byteAt (byteIndex address) = 0xFF := by
  have all : ∀ index : Fin 8, Word.allOnes.byteAt index = 0xFF := by decide
  exact all ⟨byteIndex address, Nat.mod_lt _ (by decide)⟩

end Activity

namespace Holding

theorem accesses_eq [Bus μ] (holding : Holding) : holding.accesses = ({} : Accesses μ) := by
  induction holding with
  | owned | shared => rfl
  | borrowed held ih => rw [accesses, ih]
  | boxed held ih => rw [accesses, ih]

theorem accesses_bytewise_of_lawful [Bus μ] [SlottedBus μ] [ForgetfulBus μ] [LawfulBus μ]
    (holding : Holding) : (holding.accesses : Accesses μ).Bytewise := by
  rw [accesses_eq]
  exact {
    readBytes := fun memory count address => Prod.ext
      (Activity.perform_readBytes memory count address)
      ((Activity.readBytes_reads count address).perform_memory memory)
    writeBytes := fun memory bytes address =>
      (congrArg Prod.snd (Activity.perform_writeBytes_eq memory bytes address)).trans
        (Activity.perform_writeEach memory bytes address)
    readByte_writeByte := fun memory address other byte => by
      -- Cells are the same just if word and byte within the word are.
      have here : cellAt memory other = cellAt memory address ∧
          SlottedBus.slot memory other ≠ none ↔
            SlottedBus.slot memory other = SlottedBus.slot memory address ∧
              SlottedBus.slot memory other ≠ none ∧
              Activity.byteIndex other = Activity.byteIndex address := by
        constructor
        · rintro ⟨cell, exist⟩
          obtain ⟨slots, indices⟩ := (cellAt_eq_iff exist).mp cell
          exact ⟨slots, exist, indices⟩
        · rintro ⟨slots, exist, indices⟩
          exact ⟨cellAt_of_slot slots indices, exist⟩
      change byteAt ((Activity.writeByte address byte).perform memory).2 other = _
      rw [byteAt_writeByte, if_congr here rfl rfl]
      rfl
    readByte_missing := fun memory address missing => by
      change Word.byteAt (Bus.readWord memory address) _ = _
      rw [ForgetfulBus.readWord_missing memory missing, Activity.byteAt_allOnes]
    modifyWord := LawfulBus.modifyWord_eq }

/-- However a memory is held, runs of bytes and changes of words amount to accesses to single bytes
and words. Beyond the end of a real memory that does not wrap there are only ones. -/
theorem accesses_bytewise (holding : Holding) :
    (∀ {μ : Type} [Bus μ] [SlottedBus μ] [ForgetfulBus μ] [LawfulBus μ],
      (holding.accesses : Accesses μ).Bytewise) ∧
    ∀ (memory : RealMemory) (address : Address), memory.wraps = false →
      memory.sizeWords ≤ wordIndex address →
      (holding.accesses : Accesses RealMemory).readByte memory address = 0xFF := by
  refine ⟨holding.accesses_bytewise_of_lawful, fun memory address unwrapped outside => ?_⟩
  apply holding.accesses_bytewise_of_lawful.readByte_missing
  change memory.slot address = none
  rw [RealMemory.slot, if_neg (Nat.not_lt_of_le outside), unwrapped, if_neg Bool.false_ne_true]

/-- Of three words that wrap round, one is overwritten by a run that starts in it. -/
theorem accesses_bytewise_wrapping :
    let held := Holding.boxed (.borrowed .shared)
    let memory : RealMemory := ⟨3, true, .empty⟩
    let bytes : List Byte := (List.range 29).map (BitVec.ofNat 8)
    let written := (held.accesses : Accesses RealMemory).writeBytes memory bytes
      0xFFFFFFFFFFFFFFFD
    (held.accesses : Accesses RealMemory).Bytewise ∧
      (held.accesses : Accesses CyclicMemory).Bytewise ∧
      (held.accesses : Accesses RealMemory).readByte { memory with wraps := false }
        0xFFFFFFFFFFFFFFFD = 0xFF ∧
      [0, 8, 16].map (Bus.readWord written) =
        [0x1B1C05060708090A, 0x0B0C0D0E0F101112, 0x131415161718191A] := by
  intro held memory bytes written
  obtain ⟨bytewise, outside⟩ := held.accesses_bytewise
  exact ⟨bytewise, bytewise, outside _ _ rfl (by decide), by decide +kernel⟩

end Holding

end Mainframe
