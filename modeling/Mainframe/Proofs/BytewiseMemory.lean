import Mainframe.Proofs.IndependentTranslations
import Mathlib.Data.Nat.Digits.Defs

/-! Bytes of memory one at a time. A run of bytes that is moved in whole words where it can be goes
as if each byte were moved on its own, also where words are missing. -/

set_option autoImplicit false

namespace Mainframe

variable {β μ : Type}

/-! ## Numbers in bytes -/

def bigEndian (bytes : List Byte) : Nat := Nat.ofDigits 256 (bytes.map BitVec.toNat).reverse

theorem Word.ofBytes_eq (bytes : List Byte) :
    ofBytes bytes = BitVec.ofNat 64 (bigEndian bytes) := by
  unfold bigEndian
  induction bytes using List.reverseRecOn with
  | nil => rfl
  | append_singleton bytes byte ih =>
    have apart : ofBytes bytes <<< 8 &&& byte.setWidth 64 = 0 := by
      apply BitVec.eq_of_getLsbD_eq
      intro bit inside
      simp
      grind
    have joined : ofBytes (bytes ++ [byte]) = ofBytes bytes <<< 8 ||| byte.setWidth 64 := by
      simp [ofBytes]
    rw [joined, ← BitVec.add_eq_or_of_and_eq_zero _ _ apart, ih, List.map_append,
      List.map_singleton, List.reverse_append, List.reverse_singleton, List.singleton_append,
      Nat.ofDigits_cons]
    apply BitVec.eq_of_toNat_eq
    simp [Nat.shiftLeft_eq]
    omega

namespace Word

/-- A word with some of its bytes replaced, from one of them on. -/
def withBytes (word : Word) (index : Nat) : List Byte → Word
  | [] => word
  | byte :: rest => (word.withByteAt index byte).withBytes (index + 1) rest

theorem withBytes_eight (word : Word) {bytes : List Byte} (length : bytes.length = 8) :
    word.withBytes 0 bytes = ofBytes bytes := by
  match bytes with
  | [b0, b1, b2, b3, b4, b5, b6, b7] =>
    have replaced : (word.withBytes 0 [b0, b1, b2, b3, b4, b5, b6, b7]).toBytes =
        [b0, b1, b2, b3, b4, b5, b6, b7] := by
      simp [toBytes_eq, withBytes, List.range_succ, byteAt_withByteAt]
    rw [← ofBytes_toBytes (word.withBytes _ _), replaced]

end Word

namespace Activity

/-! ## An activity for each byte -/

def onEach : List (Address → Activity β) → Address → Activity (List β)
  | [], _ => pure []
  | act :: rest, address => do
    let result ← act address
    let more ← onEach rest (address + 1)
    return result :: more

theorem readEach_eq (count : Nat) (address : Address) :
    readEach count address = onEach (List.replicate count readByte) address := by
  induction count generalizing address with
  | zero => rfl
  | succ count ih =>
    rw [readEach, ih, List.replicate_succ, onEach]

theorem writeEach_eq (bytes : List Byte) (address : Address) :
    writeEach bytes address =
      onEach (bytes.map fun byte place => writeByte place byte) address >>= fun _ => pure () := by
  induction bytes generalizing address with
  | nil => rfl
  | cons byte rest ih =>
    rw [writeEach, ih, List.map_cons, onEach]
    simp only [LawfulMonad.bind_assoc, pure_bind]

theorem writeEach_append (bytes more : List Byte) (address : Address) :
    writeEach (bytes ++ more) address = writeEach bytes address >>= fun _ =>
      writeEach more (address + BitVec.ofNat 64 bytes.length) := by
  induction bytes generalizing address with
  | nil => rw [List.nil_append, List.length_nil, BitVec.add_zero, writeEach, pure_bind]
  | cons byte rest ih =>
    have next : address + 1 + BitVec.ofNat 64 rest.length =
        address + BitVec.ofNat 64 (byte :: rest).length := by
      rw [List.length_cons, Nat.add_comm, BitVec.ofNat_add, BitVec.add_assoc]
      rfl
    rw [List.cons_append, writeEach, ih, next, writeEach, LawfulMonad.bind_assoc]

end Activity

/-! ## Words and their bytes -/

section

variable [Bus μ] [SlottedBus μ]

theorem Activity.perform_readBytes_eq (memory : μ) (count : Nat) (address : Address) :
    (readBytes count address).perform memory =
      (onEach (List.replicate count readByte) address).perform memory := by
  rw [← readEach_eq]
  refine Prod.ext ?_ ?_
  · rw [perform_readBytes, perform_readEach]
  · rw [(readBytes_reads _ _).perform_memory, (readEach_reads _ _).perform_memory]

variable [ForgetfulBus μ] (memory : μ) {address : Address}

theorem ForgetfulBus.writeWord_missing (word : Word)
    (missing : SlottedBus.slot memory address = none) :
    Bus.writeWord memory address word = memory := by
  -- The same reads come from both memories, so writing them back gives both.
  have still : SlottedBus.slot (Bus.writeWord memory address word) address = none :=
    (SlottedBus.slot_writeWord memory address address word).trans missing
  have before := writeWord_readWord memory address
  have after := writeWord_readWord (Bus.writeWord memory address word) address
  rw [readWord_missing memory missing] at before
  rw [readWord_missing _ still, writeWord_writeWord, before] at after
  exact after.symm

theorem ForgetfulBus.writeWord_update (word : Word) (change : Word → Word) :
    Bus.writeWord (Bus.writeWord memory address word) address
        (change (Bus.readWord (Bus.writeWord memory address word) address)) =
      Bus.writeWord memory address (change word) := by
  by_cases missing : SlottedBus.slot memory address = none
  · rw [writeWord_missing memory _ missing, writeWord_missing memory _ missing,
      writeWord_missing memory _ missing]
  · rw [writeWord_writeWord, SlottedBus.readWord_writeWord, if_pos ⟨rfl, missing⟩]

namespace Activity

theorem perform_writeEach_within (aligned : byteIndex address = 0) (bytes : List Byte)
    (index : Nat) (fits : index + bytes.length ≤ 8) :
    (writeEach bytes (address + BitVec.ofNat 64 index)).perform memory =
      ((), Bus.writeWord memory address
        ((Bus.readWord memory address).withBytes index bytes)) := by
  induction bytes generalizing memory index with
  | nil =>
    rw [Word.withBytes, ForgetfulBus.writeWord_readWord]
    rfl
  | cons byte rest ih =>
    rw [List.length_cons] at fits
    have inside : index < 8 := by omega
    -- All of the bytes select the word at the address, so each write replaces a byte of the same
    -- word.
    have slot (memory : μ) := SlottedBus.slot_congr memory (wordIndex_add aligned inside)
    have next : address + BitVec.ofNat 64 index + 1 = address + BitVec.ofNat 64 (index + 1) := by
      rw [BitVec.ofNat_add, BitVec.add_assoc]
      rfl
    have number : byteIndex (address + BitVec.ofNat 64 index) = index := by
      rw [byteIndex_add, aligned, Nat.zero_add, Nat.mod_eq_of_lt inside]
    have first : (writeByte (address + BitVec.ofNat 64 index) byte).perform memory =
        ((), Bus.writeWord memory address
          ((Bus.readWord memory address).withByteAt index byte)) := by
      change ((), Bus.writeWord memory _ ((Bus.readWord memory _).withByteAt _ byte)) = _
      rw [number, SlottedBus.readWord_congr memory (slot memory),
        ForgetfulBus.writeWord_congr memory _ (slot memory)]
    rw [writeEach, perform_bind, first, next, ih _ _ (by omega), Word.withBytes]
    exact congrArg (Prod.mk ()) (ForgetfulBus.writeWord_update memory _
      fun word => word.withBytes (index + 1) rest)

theorem perform_writeEach_word (aligned : byteIndex address = 0) {bytes : List Byte}
    (length : bytes.length = 8) :
    (writeEach bytes address).perform memory =
      ((), Bus.writeWord memory address (Word.ofBytes bytes)) := by
  have written := perform_writeEach_within memory aligned bytes 0 (by omega)
  rwa [BitVec.add_zero, Word.withBytes_eight _ length] at written

theorem perform_writeAll_eq {words : List Word} (aligned : words = [] ∨ byteIndex address = 0) :
    (writeAll words address).perform memory =
      (writeEach (words.flatMap Word.toBytes) address).perform memory := by
  induction words generalizing memory address with
  | nil => rfl
  | cons word rest ih =>
    have aligned : byteIndex address = 0 := aligned.resolve_left (List.cons_ne_nil _ _)
    have next : byteIndex (address + 8) = 0 := by
      rw [show (8 : Address) = BitVec.ofNat 64 8 from rfl, byteIndex_add, aligned]
    have first := perform_writeEach_word memory aligned word.length_toBytes
    rw [Word.ofBytes_toBytes] at first
    rw [List.flatMap_cons, writeEach_append, perform_bind, first, word.length_toBytes]
    exact ih _ (.inr next)

/-- A run of bytes is written whichever way it is split into words. -/
theorem perform_writeBytes_eq (bytes : List Byte) (address : Address) :
    (writeBytes bytes address).perform memory = (writeEach bytes address).perform memory := by
  have aligned := aligned_after_lead address bytes.length
  have short : unaligned address bytes.length ≤ bytes.length := Nat.min_le_left _ _
  unfold writeBytes
  extract_lets lead whole
  have words : gathered (bytes.drop lead) = [] ∨
      byteIndex (address + BitVec.ofNat 64 lead) = 0 := by
    refine aligned.imp_left fun none => List.eq_nil_of_length_eq_zero ?_
    rw [length_gathered, List.length_drop, none]
  have middle : (gathered (bytes.drop lead)).flatMap Word.toBytes =
      (bytes.drop lead).take (8 * whole) := by
    rw [flatMap_gathered, List.length_drop]
  -- The bytes before, in and after the whole words make up the run.
  have split : bytes = bytes.take lead ++ ((bytes.drop lead).take (8 * whole) ++
      bytes.drop (lead + 8 * whole)) := by
    rw [← List.drop_drop, List.take_append_drop, List.take_append_drop]
  have here : (bytes.take lead).length = lead := List.length_take_of_le short
  have there : ((bytes.drop lead).take (8 * whole)).length = 8 * whole := by
    rw [List.length_take, List.length_drop]
    omega
  conv_rhs => rw [split]
  rw [writeEach_append, writeEach_append, here, there, BitVec.add_assoc, ← BitVec.ofNat_add]
  simp only [perform_bind, perform_writeAll_eq _ words, middle]

end Activity

end

end Mainframe
