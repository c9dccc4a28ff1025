import Mainframe.Proofs.Frames
import Mainframe.Proofs.LawfulBus

/-! Bytes in memory. On a memory that keeps its words in slots, a byte lies in a cell: a slot, and
a number in the word there. What is stored at addresses with cells of their own can be read back,
and no other cell changes, but for marks of use in guarded words. -/

set_option autoImplicit false

namespace Mainframe

/-- A memory of slots. An address selects one slot, or none at all, and a word that is written is
found at the addresses that select the same slot. -/
class SlottedBus (μ : Type) [Bus μ] where
  slot : μ → Address → Option Nat
  slot_congr (memory : μ) {address other : Address} :
    wordIndex address = wordIndex other → slot memory address = slot memory other
  slot_writeWord (memory : μ) (address other : Address) (word : Word) :
    slot (Bus.writeWord memory address word) other = slot memory other
  readWord_congr (memory : μ) {address other : Address} :
    slot memory address = slot memory other → Bus.readWord memory address = Bus.readWord memory other
  readWord_writeWord (memory : μ) (address other : Address) (word : Word) :
    Bus.readWord (Bus.writeWord memory address word) other =
      if slot memory other = slot memory address ∧ slot memory other ≠ none then word
      else Bus.readWord memory other

instance : SlottedBus RealMemory where
  slot := RealMemory.slot
  slot_congr memory address other same := by
    unfold RealMemory.slot
    rw [same]
  slot_writeWord := RealMemory.slot_save
  readWord_congr memory address other same := by
    change memory.load address = memory.load other
    unfold RealMemory.load
    rw [same]
  readWord_writeWord := RealMemory.load_save

instance : SlottedBus CyclicMemory where
  slot memory address := some (memory.slot address)
  slot_congr memory address other same := by
    unfold CyclicMemory.slot
    rw [same]
  slot_writeWord _ _ _ _ := rfl
  readWord_congr memory address other same := congrArg memory.store.get (Option.some.inj same)
  readWord_writeWord memory address other word := by
    rw [CyclicMemory.readWord_writeWord]
    simp [eq_comm]

variable {μ : Type}

section

variable [Bus μ]

def byteAt (memory : μ) (address : Address) : Byte :=
  Word.byteAt (Bus.readWord memory address) (Activity.byteIndex address)

/-- The slot of the word that holds a byte, and the number of the byte in the word. -/
def cellAt [SlottedBus μ] (memory : μ) (address : Address) : Option (Nat × Nat) :=
  (SlottedBus.slot memory address).map fun slot => (slot, Activity.byteIndex address)

theorem perform_writeByte (memory : μ) (place : Address) (byte : Byte) :
    ((Activity.writeByte place byte).perform memory).2 = Bus.writeWord memory place
      ((Bus.readWord memory place).withByteAt (Activity.byteIndex place) byte) := rfl

end

/-! ## Runs of addresses -/

def run : Nat → Address → List Address
  | 0, _ => []
  | count + 1, address => address :: run count (address + 1)

theorem length_run (count : Nat) (address : Address) : (run count address).length = count := by
  induction count generalizing address with
  | zero => rfl
  | succ count ih => rw [run, List.length_cons, ih]

theorem run_add (count more : Nat) (address : Address) :
    run (count + more) address = run count address ++ run more (address + BitVec.ofNat 64 count) := by
  induction count generalizing address with
  | zero => simp [run]
  | succ count ih =>
    have next : address + BitVec.ofNat 64 (count + 1) = address + 1 + BitVec.ofNat 64 count := by
      rw [BitVec.add_assoc, Nat.add_comm, BitVec.ofNat_add]
      rfl
    rw [Nat.add_right_comm, run, ih, run, List.cons_append, next]

theorem byteIndex_add (address : Address) (count : Nat) :
    Activity.byteIndex (address + BitVec.ofNat 64 count) =
      (Activity.byteIndex address + count) % 8 := by
  simp only [Activity.byteIndex, BitVec.toNat_add, BitVec.toNat_ofNat]
  omega

theorem wordIndex_add {address : Address} (aligned : Activity.byteIndex address = 0) {count : Nat}
    (inside : count < 8) : wordIndex (address + BitVec.ofNat 64 count) = wordIndex address := by
  have bounded := address.isLt
  unfold Activity.byteIndex at aligned
  rw [wordIndex_eq, wordIndex_eq, BitVec.toNat_add, BitVec.toNat_ofNat]
  omega

theorem run_eight (address : Address) :
    run 8 address = (List.range 8).map fun count => address + BitVec.ofNat 64 count := by
  simp [run, List.range_succ, BitVec.add_assoc]

theorem Word.toBytes_eq (word : Word) : word.toBytes = (List.range 8).map word.byteAt := rfl

section

variable [Bus μ] [SlottedBus μ] (memory : μ)

theorem map_byteAt_run {address : Address} (aligned : Activity.byteIndex address = 0) :
    (run 8 address).map (byteAt memory) = (Bus.readWord memory address).toBytes := by
  rw [run_eight, Word.toBytes_eq, List.map_map]
  apply List.map_congr_left
  intro count member
  have inside : count < 8 := List.mem_range.mp member
  have slot := SlottedBus.slot_congr memory (wordIndex_add aligned inside)
  rw [Function.comp_apply, byteAt, byteIndex_add, aligned, SlottedBus.readWord_congr memory slot,
    Nat.zero_add, Nat.mod_eq_of_lt inside]

end

/-! ## Reading -/

namespace Activity

section

variable [Bus μ] (memory : μ)

theorem perform_readEach (count : Nat) (address : Address) :
    ((readEach count address).perform memory).1 = (run count address).map (byteAt memory) := by
  induction count generalizing address with
  | zero => rfl
  | succ count ih =>
    rw [readEach, perform_bind, perform_bind]
    exact congrArg (byteAt memory address :: ·) (ih (address + 1))

variable [SlottedBus μ]

theorem perform_readAll {count : Nat} {address : Address}
    (aligned : count = 0 ∨ byteIndex address = 0) :
    ((readAll count address).perform memory).1.flatMap Word.toBytes =
      (run (8 * count) address).map (byteAt memory) := by
  induction count generalizing address with
  | zero => rfl
  | succ count ih =>
    have aligned : byteIndex address = 0 := aligned.resolve_left (Nat.succ_ne_zero count)
    have next : byteIndex (address + 8) = 0 := by
      rw [show (8 : Address) = BitVec.ofNat 64 8 from rfl, byteIndex_add, aligned]
    rw [Nat.mul_succ, Nat.add_comm (8 * count), run_add, List.map_append,
      map_byteAt_run memory aligned, readAll, perform_bind, perform_bind]
    exact congrArg ((Bus.readWord memory address).toBytes ++ ·) (ih (.inr next))

theorem aligned_after_lead (address : Address) (count : Nat) :
    (count - unaligned address count) / 8 = 0 ∨
      byteIndex (address + BitVec.ofNat 64 (unaligned address count)) = 0 := by
  have small : byteIndex address < 8 := Nat.mod_lt _ (by decide)
  rw [byteIndex_add]
  unfold unaligned
  omega

/-- A run of bytes is read whichever way it is split into words. -/
theorem perform_readBytes (count : Nat) (address : Address) :
    ((readBytes count address).perform memory).1 = (run count address).map (byteAt memory) := by
  have short : unaligned address count ≤ count := Nat.min_le_left _ _
  have lengths : count = unaligned address count + 8 * ((count - unaligned address count) / 8) +
      (count - unaligned address count) % 8 := by omega
  unfold readBytes
  rw [perform_bind, (readEach_reads _ _).perform_memory, perform_bind,
    (readAll_reads _ _).perform_memory, perform_bind, (readEach_reads _ _).perform_memory]
  rw [perform_pure, perform_readEach, perform_readEach,
    perform_readAll memory (aligned_after_lead address count), ← List.map_append, ← run_add,
    ← List.map_append, ← run_add, ← lengths]

end

end Activity

/-! ## Storing -/

section

variable [Bus μ] [SlottedBus μ]

/-- The addresses have cells of their own: they select words that exist and are not guarded, and
no two of them the same byte. -/
structure Apart (guarded : Option Nat → Prop) (memory : μ) (places : List Address) : Prop where
  exist : ∀ place ∈ places, SlottedBus.slot memory place ≠ none
  outside : ∀ place ∈ places, ¬ guarded (SlottedBus.slot memory place)
  distinct : (places.map (cellAt memory)).Nodup

/-- The second memory is the first with bytes stored at some places, and with marks of use in
guarded words. -/
structure Stored (guarded : Option Nat → Prop) (memory : μ) (places : List Address)
    (bytes : List Byte) (kept : μ) : Prop where
  slots : ∀ address, SlottedBus.slot kept address = SlottedBus.slot memory address
  marked : ∀ address, guarded (SlottedBus.slot memory address) →
    Bus.readWord kept address ||| PageEntry.marks .forUpdate =
      Bus.readWord memory address ||| PageEntry.marks .forUpdate
  bytes : places.map (byteAt kept) = bytes
  others : ∀ address, ¬ guarded (SlottedBus.slot memory address) →
    cellAt memory address ∉ places.map (cellAt memory) → byteAt kept address = byteAt memory address

/-- Nothing has changed but for marks of use in guarded words. -/
def Keeps (guarded : Option Nat → Prop) (memory kept : μ) : Prop :=
  Stored guarded memory [] [] kept

variable {guarded : Option Nat → Prop} {memory kept last : μ} {places more : List Address}
  {bytes others : List Byte}

theorem cellAt_congr (slots : ∀ address, SlottedBus.slot kept address = SlottedBus.slot memory address) :
    cellAt kept = cellAt memory := by
  funext address
  rw [cellAt, slots, cellAt]

theorem cellAt_of_slot {address other : Address}
    (slot : SlottedBus.slot memory address = SlottedBus.slot memory other)
    (index : Activity.byteIndex address = Activity.byteIndex other) :
    cellAt memory address = cellAt memory other := by
  rw [cellAt, slot, index, cellAt]

theorem slot_of_cellAt {address other : Address}
    (same : cellAt memory address = cellAt memory other) :
    SlottedBus.slot memory address = SlottedBus.slot memory other := by
  have slots := congrArg (Option.map Prod.fst) same
  simpa [cellAt, Option.map_map, Function.comp_def] using slots

theorem cellAt_eq_iff {address other : Address}
    (exist : SlottedBus.slot memory address ≠ none) :
    cellAt memory address = cellAt memory other ↔
      SlottedBus.slot memory address = SlottedBus.slot memory other ∧
        Activity.byteIndex address = Activity.byteIndex other := by
  refine ⟨fun same => ?_, fun same => cellAt_of_slot same.1 same.2⟩
  obtain ⟨slot, here⟩ := Option.ne_none_iff_exists'.mp exist
  unfold cellAt at same
  rw [here] at same ⊢
  obtain ⟨there, found, cell⟩ := Option.map_eq_some_iff.mp same.symm
  obtain ⟨slots, indices⟩ := Prod.mk.inj cell
  exact ⟨by rw [found, slots], indices.symm⟩

theorem byteAt_writeByte (memory : μ) (place address : Address) (byte : Byte) :
    byteAt ((Activity.writeByte place byte).perform memory).2 address =
      if cellAt memory address = cellAt memory place ∧ SlottedBus.slot memory address ≠ none then
        byte
      else byteAt memory address := by
  have small (other : Address) : Activity.byteIndex other % 8 = Activity.byteIndex other :=
    Nat.mod_mod _ _
  rw [perform_writeByte, byteAt, SlottedBus.readWord_writeWord]
  by_cases exist : SlottedBus.slot memory address = none
  · rw [if_neg fun here => here.2 exist, if_neg fun here => here.2 exist, byteAt]
  by_cases word : SlottedBus.slot memory address = SlottedBus.slot memory place
  · rw [if_pos ⟨word, exist⟩, Word.byteAt_withByteAt, small, small,
      ← SlottedBus.readWord_congr memory word]
    have cell : cellAt memory address = cellAt memory place ↔
        Activity.byteIndex place = Activity.byteIndex address := by
      rw [cellAt_eq_iff exist, and_iff_right word, eq_comm]
    simp only [cell, ne_eq, exist, not_false_eq_true, and_true]
    rfl
  · rw [if_neg fun here => word here.1,
      if_neg fun here => word ((cellAt_eq_iff exist).mp here.1).1, byteAt]

theorem readWord_eq_of_bytes {address : Address}
    (same : ∀ other, SlottedBus.slot memory other = SlottedBus.slot memory address →
      byteAt kept other = byteAt memory other) :
    Bus.readWord kept address = Bus.readWord memory address := by
  -- The word is made of the eight bytes from its first address on, all of which have its slot.
  have start : (BitVec.ofNat 64 (8 * (address.toNat / 8))).toNat = 8 * (address.toNat / 8) := by
    rw [BitVec.toNat_ofNat]
    omega
  generalize BitVec.ofNat 64 (8 * (address.toNat / 8)) = first at start
  have aligned : Activity.byteIndex first = 0 := by
    unfold Activity.byteIndex
    omega
  have word : wordIndex address = wordIndex first := by
    rw [wordIndex_eq, wordIndex_eq]
    omega
  have bytes : (run 8 first).map (byteAt kept) = (run 8 first).map (byteAt memory) := by
    apply List.map_congr_left
    intro other member
    rw [run_eight] at member
    obtain ⟨count, inside, rfl⟩ := List.mem_map.mp member
    apply same
    apply SlottedBus.slot_congr
    rw [wordIndex_add aligned (List.mem_range.mp inside), word]
  rw [map_byteAt_run _ aligned, map_byteAt_run _ aligned] at bytes
  rw [SlottedBus.readWord_congr kept (SlottedBus.slot_congr kept word),
    SlottedBus.readWord_congr memory (SlottedBus.slot_congr memory word),
    ← Word.ofBytes_toBytes (Bus.readWord kept first), bytes, Word.ofBytes_toBytes]

namespace Apart

theorem nil : Apart guarded memory [] where
  exist _ member := (List.not_mem_nil member).elim
  outside _ member := (List.not_mem_nil member).elim
  distinct := List.nodup_nil

theorem left (apart : Apart guarded memory (places ++ more)) : Apart guarded memory places where
  exist place member := apart.exist place (List.mem_append_left _ member)
  outside place member := apart.outside place (List.mem_append_left _ member)
  distinct := (List.nodup_append.mp (List.map_append ▸ apart.distinct)).1

theorem right (apart : Apart guarded memory (places ++ more)) : Apart guarded memory more where
  exist place member := apart.exist place (List.mem_append_right _ member)
  outside place member := apart.outside place (List.mem_append_right _ member)
  distinct := (List.nodup_append.mp (List.map_append ▸ apart.distinct)).2.1

theorem of_slots (apart : Apart guarded memory places)
    (slots : ∀ address, SlottedBus.slot kept address = SlottedBus.slot memory address) :
    Apart guarded kept places where
  exist place member := by
    rw [slots]
    exact apart.exist place member
  outside place member := by
    rw [slots]
    exact apart.outside place member
  distinct := by
    rw [cellAt_congr slots]
    exact apart.distinct

theorem narrow {fewer : Option Nat → Prop} (apart : Apart guarded memory places)
    (within : ∀ slot, fewer slot → guarded slot) : Apart fewer memory places where
  exist := apart.exist
  outside place member inside := apart.outside place member (within _ inside)
  distinct := apart.distinct

theorem ne_of_append (apart : Apart guarded memory (places ++ more)) {place : Address}
    (member : place ∈ places) : cellAt memory place ∉ more.map (cellAt memory) := by
  intro again
  have distinct := (List.nodup_append.mp (List.map_append ▸ apart.distinct)).2.2
  exact distinct _ (List.mem_map_of_mem member) _ again rfl

end Apart

namespace Stored

theorem append (apart : Apart guarded memory (places ++ more))
    (first : Stored guarded memory places bytes kept)
    (second : Stored guarded kept more others last) :
    Stored guarded memory (places ++ more) (bytes ++ others) last where
  slots address := (second.slots address).trans (first.slots address)
  marked address isGuarded := by
    have still : guarded (SlottedBus.slot kept address) := by rwa [first.slots]
    rw [second.marked address still, first.marked address isGuarded]
  bytes := by
    rw [List.map_append, second.bytes, ← first.bytes]
    congr 1
    apply List.map_congr_left
    intro place member
    apply second.others place
    · rw [first.slots]
      exact apart.left.outside place member
    · rw [cellAt_congr first.slots]
      exact apart.ne_of_append member
  others address unguarded outside := by
    rw [List.map_append, List.mem_append, not_or] at outside
    rw [second.others address (by rwa [first.slots]) (by rw [cellAt_congr first.slots]; exact outside.2),
      first.others address unguarded outside.1]

theorem widen {wider : Option Nat → Prop} (stored : Stored guarded memory places bytes kept)
    (within : ∀ slot, guarded slot → wider slot)
    (outside : ∀ place ∈ places, ¬ wider (SlottedBus.slot memory place)) :
    Stored wider memory places bytes kept where
  slots := stored.slots
  marked address isGuarded := by
    by_cases inner : guarded (SlottedBus.slot memory address)
    · exact stored.marked address inner
    have word : Bus.readWord kept address = Bus.readWord memory address := by
      apply readWord_eq_of_bytes
      intro other same
      refine stored.others other (by rwa [same]) fun member => ?_
      obtain ⟨place, member, cell⟩ := List.mem_map.mp member
      exact outside place member (by rwa [slot_of_cellAt cell, same])
    rw [word]
  bytes := stored.bytes
  others address unguarded := stored.others address fun inner => unguarded (within _ inner)

end Stored

namespace Keeps

theorem refl : Keeps guarded memory memory where
  slots _ := rfl
  marked _ _ := rfl
  bytes := rfl
  others _ _ _ := rfl

theorem trans (first : Keeps guarded memory kept) (second : Keeps guarded kept last) :
    Keeps guarded memory last :=
  Stored.append Apart.nil first second

theorem then_stored (first : Keeps guarded memory kept) (apart : Apart guarded memory places)
    (second : Stored guarded kept places bytes last) : Stored guarded memory places bytes last :=
  Stored.append apart first second

theorem widen {wider : Option Nat → Prop} (keeps : Keeps guarded memory kept)
    (within : ∀ slot, guarded slot → wider slot) : Keeps wider memory kept :=
  Stored.widen keeps within fun _ member => (List.not_mem_nil member).elim

theorem byteAt_eq (keeps : Keeps guarded memory kept) {place : Address}
    (outside : ¬ guarded (SlottedBus.slot memory place)) : byteAt kept place = byteAt memory place :=
  keeps.others place outside List.not_mem_nil

theorem mark {address : Address} (isGuarded : guarded (SlottedBus.slot memory address))
    (modes : AccessModes) :
    Keeps guarded memory
      (Bus.writeWord memory address (Bus.readWord memory address ||| PageEntry.marks modes)) where
  slots other := SlottedBus.slot_writeWord memory address other _
  marked other _ := by
    rw [SlottedBus.readWord_writeWord]
    split
    · next same =>
      rw [BitVec.or_assoc, OnlyMarks.or_marks, SlottedBus.readWord_congr memory same.1]
    · rfl
  bytes := rfl
  others other unguarded _ := by
    have apart : SlottedBus.slot memory other ≠ SlottedBus.slot memory address := by
      intro same
      exact unguarded (same ▸ isGuarded)
    rw [byteAt, SlottedBus.readWord_writeWord, if_neg (fun same => apart same.1), byteAt]

end Keeps

theorem readWord_guarded {place address : Address} (word : Word)
    (outside : ¬ guarded (SlottedBus.slot memory place))
    (isGuarded : guarded (SlottedBus.slot memory address)) :
    Bus.readWord (Bus.writeWord memory place word) address = Bus.readWord memory address := by
  rw [SlottedBus.readWord_writeWord, if_neg]
  intro same
  exact outside (same.1 ▸ isGuarded)

theorem Stored.writeWord {address : Address} (aligned : Activity.byteIndex address = 0)
    (apart : Apart guarded memory (run 8 address)) (word : Word) :
    Stored guarded memory (run 8 address) word.toBytes (Bus.writeWord memory address word) where
  slots other := SlottedBus.slot_writeWord memory address other word
  marked other isGuarded := by
    rw [readWord_guarded word (apart.outside address List.mem_cons_self) isGuarded]
  bytes := by
    rw [map_byteAt_run _ aligned, SlottedBus.readWord_writeWord,
      if_pos ⟨rfl, apart.exist address List.mem_cons_self⟩]
  others other _ outside := by
    -- A byte of the word is the one at some address of the run.
    have differs : SlottedBus.slot memory other ≠ SlottedBus.slot memory address := by
      intro same
      have small : Activity.byteIndex other < 8 := Nat.mod_lt _ (by decide)
      apply outside
      rw [run_eight]
      refine List.mem_map.mpr ⟨address + BitVec.ofNat 64 (Activity.byteIndex other),
        List.mem_map_of_mem (List.mem_range.mpr small), cellAt_of_slot ?_ ?_⟩
      · rw [SlottedBus.slot_congr memory (wordIndex_add aligned small), same]
      · rw [byteIndex_add, aligned, Nat.zero_add, Nat.mod_eq_of_lt small]
    rw [byteAt, SlottedBus.readWord_writeWord, if_neg (fun same => differs same.1), byteAt]

theorem Stored.writeByte {address : Address} (apart : Apart guarded memory [address])
    (byte : Byte) :
    Stored guarded memory [address] [byte]
      ((Activity.writeByte address byte).perform memory).2 where
  slots other := SlottedBus.slot_writeWord memory address other _
  marked other isGuarded := by
    rw [perform_writeByte, readWord_guarded _ (apart.outside address List.mem_cons_self) isGuarded]
  bytes := by
    rw [List.map_singleton, byteAt_writeByte,
      if_pos ⟨rfl, apart.exist address List.mem_cons_self⟩]
  others other _ outside := by
    rw [byteAt_writeByte, if_neg fun here => outside (List.mem_singleton.mpr here.1)]

/-! ## Storing runs of bytes -/

theorem Word.toBytes_ofBytes (b0 b1 b2 b3 b4 b5 b6 b7 : Byte) :
    (ofBytes [b0, b1, b2, b3, b4, b5, b6, b7]).toBytes = [b0, b1, b2, b3, b4, b5, b6, b7] := by
  simp only [toBytes, List.cons.injEq, and_true]
  refine ⟨?_, ?_, ?_, ?_, ?_, ?_, ?_, ?_⟩ <;>
  · apply BitVec.eq_of_getLsbD_eq
    intro bit inside
    simp [ofBytes, byteFrom]
    grind

namespace Activity

theorem flatMap_gathered (bytes : List Byte) :
    (gathered bytes).flatMap Word.toBytes = bytes.take (8 * (bytes.length / 8)) := by
  fun_induction gathered bytes with
  | case1 b0 b1 b2 b3 b4 b5 b6 b7 rest ih =>
    have longer : (rest.length + 8) / 8 = rest.length / 8 + 1 := by omega
    simp only [List.flatMap_cons, Word.toBytes_ofBytes, ih, List.length_cons, longer, Nat.mul_succ]
    rfl
  | case2 bytes short =>
    have few : bytes.length / 8 = 0 := by
      rcases bytes with _ | ⟨_, _ | ⟨_, _ | ⟨_, _ | ⟨_, _ | ⟨_, _ | ⟨_, _ | ⟨_, _ | _⟩⟩⟩⟩⟩⟩⟩
      all_goals first | exact (short _ _ _ _ _ _ _ _ _ rfl).elim | simp
    rw [few]
    rfl

theorem gathered_append {first : List Byte} (rest : List Byte) (length : first.length = 8) :
    gathered (first ++ rest) = Word.ofBytes first :: gathered rest := by
  match first with
  | [_, _, _, _, _, _, _, _] => rfl

@[simp] theorem gathered_flatMap (words : List Word) :
    gathered (words.flatMap Word.toBytes) = words := by
  induction words with
  | nil => rfl
  | cons word rest ih =>
    rw [List.flatMap_cons, gathered_append _ word.length_toBytes, ih, Word.ofBytes_toBytes]

theorem writeEach_stored {address : Address} {count : Nat} (length : bytes.length = count)
    (apart : Apart guarded memory (run count address)) :
    Stored guarded memory (run count address) bytes
      ((writeEach bytes address).perform memory).2 := by
  subst length
  induction bytes generalizing address memory with
  | nil => exact Keeps.refl
  | cons byte rest ih =>
    have apart : Apart guarded memory ([address] ++ run rest.length (address + 1)) := apart
    have first := Stored.writeByte apart.left byte
    rw [writeEach, perform_bind]
    exact .append apart first (ih (apart.right.of_slots first.slots))

theorem writeAll_stored {words : List Word} {address : Address} {count : Nat}
    (length : words.length = count) (aligned : count = 0 ∨ byteIndex address = 0)
    (apart : Apart guarded memory (run (8 * count) address)) :
    Stored guarded memory (run (8 * count) address) (words.flatMap Word.toBytes)
      ((writeAll words address).perform memory).2 := by
  subst length
  induction words generalizing address memory with
  | nil => exact Keeps.refl
  | cons word rest ih =>
    have aligned : byteIndex address = 0 := aligned.resolve_left (Nat.succ_ne_zero rest.length)
    have next : byteIndex (address + 8) = 0 := by
      rw [show (8 : Address) = BitVec.ofNat 64 8 from rfl, byteIndex_add, aligned]
    rw [List.length_cons, Nat.mul_succ, Nat.add_comm (8 * rest.length), run_add] at apart ⊢
    have first := Stored.writeWord aligned apart.left word
    exact .append apart first (ih (.inr next) (apart.right.of_slots first.slots))

theorem writeBytes_stored {address : Address} {count : Nat} (length : bytes.length = count)
    (apart : Apart guarded memory (run count address)) :
    Stored guarded memory (run count address) bytes
      ((writeBytes bytes address).perform memory).2 := by
  subst length
  have short : unaligned address bytes.length ≤ bytes.length := Nat.min_le_left _ _
  have aligned := aligned_after_lead address bytes.length
  unfold writeBytes
  extract_lets lead whole
  have lengths : bytes.length = lead + (8 * whole + (bytes.length - (lead + 8 * whole))) := by
    omega
  have places : run bytes.length address = run lead address ++
      (run (8 * whole) (address + BitVec.ofNat 64 lead) ++
        run (bytes.length - (lead + 8 * whole))
          (address + BitVec.ofNat 64 (lead + 8 * whole))) := by
    conv_lhs => rw [lengths]
    rw [run_add, run_add, BitVec.add_assoc, ← BitVec.ofNat_add]
  have joined : bytes.take lead ++ ((gathered (bytes.drop lead)).flatMap Word.toBytes ++
      bytes.drop (lead + 8 * whole)) = bytes := by
    rw [flatMap_gathered, List.length_drop, ← List.drop_drop]
    change bytes.take lead ++ ((bytes.drop lead).take (8 * whole) ++ _) = bytes
    rw [List.take_append_drop, List.take_append_drop]
  rw [places] at apart ⊢
  rw [perform_bind, perform_bind]
  -- Bytes up to the first whole word, whole words, and the bytes after the last one.
  have first : Stored guarded memory (run lead address) (bytes.take lead) _ :=
    writeEach_stored (List.length_take_of_le short) apart.left
  have words : (gathered (bytes.drop lead)).length = whole := by
    rw [length_gathered, List.length_drop]
  have second := writeAll_stored words aligned (apart.right.left.of_slots first.slots)
  have third := writeEach_stored (List.length_drop (i := lead + 8 * whole) (l := bytes))
    ((apart.right.right.of_slots first.slots).of_slots second.slots)
  have stored := first.append apart (second.append (apart.right.of_slots first.slots) third)
  rwa [joined] at stored

end Activity

end

end Mainframe
