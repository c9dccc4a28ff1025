import Mainframe.Execute.BitStorage
import Mainframe.Proofs.MemoryDifferences
import Mainframe.Proofs.VirtualBytes

/-! Virtual memory as an array of bits. A bit has a segment and a number in it. Where every page has
a frame of its own, to store a bit changes the array at one address, and translations do not change
it at all. -/

set_option autoImplicit false

namespace Mainframe

variable {μ : Type}

/-! ## Bits of bytes -/

def byteBit (byte : Byte) (place : Fin 8) : Bool := byte.getLsbD (7 - place.val)

def withByteBit (byte : Byte) (place : Fin 8) (bit : Bool) : Byte :=
  if bit then byte ||| BitVec.twoPow 8 (7 - place.val)
  else byte &&& ~~~ BitVec.twoPow 8 (7 - place.val)

theorem byteBit_withByteBit (byte : Byte) (place other : Fin 8) (bit : Bool) :
    byteBit (withByteBit byte place bit) other =
      if other = place then bit else byteBit byte other := by
  have inside : 7 - other.val < 8 := by omega
  have alone :
      (BitVec.twoPow 8 (7 - place.val)).getLsbD (7 - other.val) = decide (other = place) := by
    rw [BitVec.getLsbD_twoPow, Bool.eq_iff_iff, Bool.and_eq_true, decide_eq_true_eq,
      decide_eq_true_eq, decide_eq_true_eq]
    omega
  unfold byteBit withByteBit
  cases bit with
  | false =>
    rw [if_neg Bool.false_ne_true, BitVec.getLsbD_and, BitVec.getLsbD_not, alone]
    by_cases here : other = place <;> simp [here, inside]
  | true =>
    rw [if_pos rfl, BitVec.getLsbD_or, alone]
    by_cases here : other = place <;> simp [here]

/-! ## Addresses of bits -/

/-- The address of a bit: a segment, and the number of the bit in it. -/
structure BitAddress where
  segment : SegmentNumber
  number : BitVec 35
  deriving DecidableEq

namespace BitAddress

/-- The byte that holds the bit. The ring makes no difference to where that is. -/
def byte (bit : BitAddress) : VirtualAddress := ⟨0, bit.segment, bit.number.extractLsb' 3 32⟩

def place (bit : BitAddress) : Fin 8 := (bit.number.extractLsb' 0 3).toFin

theorem number_eq_iff {bit other : BitAddress} :
    bit.number = other.number ↔
      bit.byte.byteNumber = other.byte.byteNumber ∧ bit.place = other.place := by
  have joined (number : BitVec 35) :
      number.extractLsb' 3 32 ++ number.extractLsb' 0 3 = number := by
    rw [BitVec.extractLsb'_append_extractLsb'_eq_extractLsb' (by rfl)]
    exact BitVec.extractLsb'_eq_self
  constructor
  · intro same
    rw [byte, byte, place, place, same]
    exact ⟨rfl, rfl⟩
  · rintro ⟨bytes, places⟩
    rw [← joined bit.number, ← joined other.number]
    exact congrArg₂ (· ++ ·) bytes (BitVec.toFin_injective places)

end BitAddress

abbrev SystemBit := Option (BitVec 16) × BitVec 35

def BitOperand.address (operand : BitOperand) : BitAddress where
  segment := operand.byte.segment
  number := operand.byte.byteNumber ++ (BitVec.ofFin operand.place : BitVec 3)

namespace BitOperand

theorem byte_address (operand : BitOperand) : operand.address.byte = operand.byte.withRing 0 := by
  have number : (operand.byte.byteNumber ++ (BitVec.ofFin operand.place : BitVec 3)).extractLsb'
      3 32 = operand.byte.byteNumber := BitVec.extractLsb'_append_eq_left
  rw [BitAddress.byte, address, number]
  rfl

theorem place_address (operand : BitOperand) : operand.address.place = operand.place := by
  have place : (operand.byte.byteNumber ++ (BitVec.ofFin operand.place : BitVec 3)).extractLsb'
      0 3 = BitVec.ofFin operand.place := BitVec.extractLsb'_append_eq_right
  rw [BitAddress.place, address, place]

end BitOperand

namespace Processor

/-- The address of the bit as far from the first one at Aj + displacement as the right half of X0
says. -/
def bitAddress (processor : Processor) (instruction : Instruction) (displacement : Int) :
    BitAddress where
  segment := (processor.addressRegister instruction.j).segment
  number := BitVec.ofInt 35
    (8 * ((processor.addressRegister instruction.j).byteNumber.toNat + displacement) +
      (processor.wordRegister 0).rightSigned)

/-- A negative distance leads to a bit of an earlier byte, and its place there is counted from the
left as well. -/
theorem bitOperand_address (processor : Processor) (instruction : Instruction)
    (displacement : Int) :
    (processor.bitOperand instruction displacement).address =
      processor.bitAddress instruction displacement := by
  have number (start distance : HalfWord) :
      (start + BitVec.ofInt 32 (displacement + (distance.sshiftRight 3).toInt)) ++
          distance.extractLsb' 0 3 =
        BitVec.ofInt 35 (8 * (start.toNat + displacement) + distance.toInt) := by
    -- The distance is eight times its quotient, rounded down, and a remainder that is not negative.
    have whole : (distance.sshiftRight 3).toInt = distance.toInt / 8 := by
      rw [BitVec.toInt_sshiftRight, Int.shiftRight_eq_div_pow]
      rfl
    have rest : (distance.extractLsb' 0 3).toNat = distance.toNat % 8 := by
      rw [BitVec.extractLsb'_toNat, Nat.shiftRight_zero]
    have signed := distance.toInt_eq_toNat_cond
    have bounded := distance.isLt
    apply BitVec.eq_of_toNat_eq
    rw [BitVec.toNat_append, ← Nat.shiftLeft_add_eq_or_of_lt (BitVec.isLt _), Nat.shiftLeft_eq,
      BitVec.toNat_add, BitVec.toNat_ofInt, BitVec.toNat_ofInt, whole, rest]
    omega
  exact congrArg (BitAddress.mk _) (number _ _)

end Processor

namespace TranslationUnit

/-! ## Pages in frames of their own -/

section

variable [Bus μ] (unit : TranslationUnit) (memory : μ)

def asidAt (address : VirtualAddress) : Option (BitVec 16) :=
  (unit.descriptorAt memory address.segment.toNat).map SegmentDescriptor.asid

def frameAt (address : VirtualAddress) : Option Address :=
  if address.byteNumber.msb then none
  else (unit.asidAt memory address).bind fun asid =>
    (unit.pageAt memory asid address.byteNumber).map fun lookup => lookup.entry.frameAddress

def placeAt (address : VirtualAddress) : Option Address :=
  (unit.frameAt memory address).map fun frame =>
    frame ||| (address.byteNumber &&& unit.offsetMask).setWidth 64

def bitAt (bit : BitAddress) : Option Bool :=
  (unit.placeAt memory bit.byte).map fun real => byteBit (byteAt memory real) bit.place

/-- What the address of a bit stands for: segments with the same identifier have their bits in
common. -/
def systemBit (bit : BitAddress) : SystemBit :=
  (unit.asidAt memory bit.byte, bit.number)

/-- Each page that is mapped has a frame of its own, which begins at a multiple of the page size.
The words of the frames exist, each in a slot of its own outside the tables. -/
structure OwnFrames [SlottedBus μ] : Prop where
  aligned : ∀ {address frame}, unit.frameAt memory address = some frame →
    unit.pageSize ∣ frame.toNat
  distinct : ∀ {address other frame}, unit.frameAt memory address = some frame →
    unit.frameAt memory other = some frame →
      unit.asidAt memory address = unit.asidAt memory other ∧
        unit.pageOf address.byteNumber = unit.pageOf other.byteNumber
  exist : ∀ {address real}, unit.placeAt memory address = some real →
    SlottedBus.slot memory real ≠ none
  apart : ∀ {address other real place}, unit.placeAt memory address = some real →
    unit.placeAt memory other = some place →
      SlottedBus.slot memory real = SlottedBus.slot memory place →
        wordIndex real = wordIndex place
  outside : ∀ {address real}, unit.placeAt memory address = some real →
    ¬ unit.tableSlots memory (SlottedBus.slot memory real)

variable {unit memory} {address other : VirtualAddress} {real place frame : Address}

theorem placeAt_eq_realAt (proper : address.byteNumber.msb = false) :
    unit.placeAt memory address = unit.realAt memory address := by
  rw [placeAt, frameAt, if_neg (by rw [proper]; exact Bool.false_ne_true), asidAt, realAt]
  cases unit.descriptorAt memory address.segment.toNat with
  | none => rfl
  | some descriptor =>
    rw [Option.map_some, Option.bind_some, Option.bind_some]
    rcases found : unit.pageAt memory descriptor.asid address.byteNumber with _ | lookup
    · rfl
    · exact congrArg some (unit.pageAt_some found).2.2.2.symm

theorem toNat_placeAt (placed : unit.placeAt memory address = some real)
    (aligned : ∀ {frame}, unit.frameAt memory address = some frame → unit.pageSize ∣ frame.toNat) :
    ∃ frame, unit.frameAt memory address = some frame ∧
      real.toNat = frame.toNat + address.byteNumber.toNat % unit.pageSize := by
  obtain ⟨frame, found, rfl⟩ := Option.map_eq_some_iff.mp placed
  refine ⟨frame, found, ?_⟩
  have multiple := aligned found
  unfold frameAt at found
  split at found
  · cases found
  · obtain ⟨asid, -, found⟩ := Option.bind_eq_some_iff.mp found
    obtain ⟨lookup, -, rfl⟩ := Option.map_eq_some_iff.mp found
    exact unit.toNat_pageAddress multiple address.byteNumber

theorem frameAt_some {frame : Address} (found : unit.frameAt memory address = some frame) :
    ∃ asid index, unit.asidAt memory address = some asid ∧ unit.InTable index ∧
      (unit.pageOf address.byteNumber).toNat < 2 ^ 22 ∧
      (unit.entryAt memory index).Carries (pageIdentifier asid (unit.pageOf address.byteNumber)) ∧
      frame = (unit.entryAt memory index).frameAddress := by
  unfold frameAt at found
  split at found
  · cases found
  next proper =>
  have below : address.byteNumber.toNat < 2 ^ 31 := by
    simpa [BitVec.msb_eq_decide] using proper
  obtain ⟨asid, segment, found⟩ := Option.bind_eq_some_iff.mp found
  obtain ⟨lookup, page, rfl⟩ := Option.map_eq_some_iff.mp found
  rw [pageAt_eq] at page
  obtain ⟨⟨index, entry⟩, matched, rfl⟩ := Option.map_eq_some_iff.mp page
  obtain ⟨finds, rfl⟩ := entryOf_eq_some_iff.mp matched
  exact ⟨asid, index, segment, finds.inTable, unit.toNat_pageOf_lt below, finds.carries, rfl⟩

end

section

variable [Bus μ] [SlottedBus μ] {unit : TranslationUnit} {memory kept : μ}
  {address other : VirtualAddress} {real place : Address}

variable (unit memory) in
def Frames (real : Address) : Prop :=
  ∃ index, unit.InTable index ∧ (unit.entryAt memory index).valid = true ∧
    (unit.entryAt memory index).frameAddress.toNat ≤ real.toNat ∧
      real.toNat < (unit.entryAt memory index).frameAddress.toNat + unit.pageSize

theorem OwnFrames.of_entries
    (aligned : ∀ index, unit.InTable index → (unit.entryAt memory index).valid = true →
      unit.pageSize ∣ (unit.entryAt memory index).frameAddress.toNat)
    (distinct : ∀ index other, unit.InTable index → unit.InTable other →
      (unit.entryAt memory index).valid = true → (unit.entryAt memory other).valid = true →
        (unit.entryAt memory index).frameAddress = (unit.entryAt memory other).frameAddress →
          (unit.entryAt memory index).identifier = (unit.entryAt memory other).identifier)
    (words : ∀ real, unit.Frames memory real →
      SlottedBus.slot memory real ≠ none ∧ ¬ unit.tableSlots memory (SlottedBus.slot memory real))
    (apart : ∀ real place, unit.Frames memory real → unit.Frames memory place →
      SlottedBus.slot memory real = SlottedBus.slot memory place →
        wordIndex real = wordIndex place) : unit.OwnFrames memory := by
  have multiple {address : VirtualAddress} {frame : Address}
      (found : unit.frameAt memory address = some frame) : unit.pageSize ∣ frame.toNat := by
    obtain ⟨_, index, -, within, -, carries, rfl⟩ := frameAt_some found
    exact aligned index within carries.1
  have framed {address : VirtualAddress} {real : Address}
      (placed : unit.placeAt memory address = some real) : unit.Frames memory real := by
    obtain ⟨frame, found, number⟩ := toNat_placeAt placed multiple
    obtain ⟨_, index, -, within, -, carries, rfl⟩ := frameAt_some found
    have inside := Nat.mod_lt address.byteNumber.toNat unit.pageSize_pos
    exact ⟨index, within, carries.1, by omega, by omega⟩
  refine ⟨multiple, fun found again => ?_, fun placed => (words _ (framed placed)).1,
    fun placed again => apart _ _ (framed placed) (framed again),
    fun placed => (words _ (framed placed)).2⟩
  obtain ⟨asid, index, segment, within, small, carries, frame⟩ := frameAt_some found
  obtain ⟨other, place, named, inside, fits, holds, same⟩ := frameAt_some again
  have identifiers := distinct index place within inside carries.1 holds.1 (frame.symm.trans same)
  have carried : (unit.entryAt memory index).Carries _ := ⟨carries.1, identifiers.trans holds.2⟩
  obtain ⟨rfl, pages⟩ := pageIdentifier_inj small fits (carries.inj carried)
  exact ⟨segment.trans named.symm, pages⟩

/-- No two bytes have the same cell. -/
theorem OwnFrames.injective (own : unit.OwnFrames memory)
    (here : unit.placeAt memory address = some real)
    (there : unit.placeAt memory other = some place)
    (same : cellAt memory real = cellAt memory place) :
    unit.asidAt memory address = unit.asidAt memory other ∧
      address.byteNumber = other.byteNumber := by
  obtain ⟨slots, bytes⟩ := (cellAt_eq_iff (own.exist here)).mp same
  have words := own.apart here there slots
  rw [wordIndex_eq, wordIndex_eq] at words
  unfold Activity.byteIndex at bytes
  obtain ⟨frame, found, first⟩ := toNat_placeAt here own.aligned
  obtain ⟨second, again, last⟩ := toNat_placeAt there own.aligned
  have inside := Nat.mod_lt address.byteNumber.toNat unit.pageSize_pos
  have within := Nat.mod_lt other.byteNumber.toNat unit.pageSize_pos
  -- The two places are one number, and that has one quotient and one remainder.
  obtain ⟨frames, start⟩ := own.aligned found
  obtain ⟨more, begins⟩ := own.aligned again
  have number : unit.pageSize * frames + address.byteNumber.toNat % unit.pageSize =
      unit.pageSize * more + other.byteNumber.toNat % unit.pageSize := by omega
  have quotient := congrArg (· / unit.pageSize) number
  have remainder := congrArg (· % unit.pageSize) number
  simp only [Nat.mul_add_div unit.pageSize_pos, Nat.mul_add_mod, Nat.div_eq_of_lt inside,
    Nat.div_eq_of_lt within, Nat.add_zero, Nat.mod_mod] at quotient remainder
  have frames : frame = second := BitVec.eq_of_toNat_eq (by rw [start, begins, quotient])
  obtain ⟨segments, pages⟩ := own.distinct found (frames ▸ again)
  refine ⟨segments, BitVec.eq_of_toNat_eq ?_⟩
  have pages := congrArg BitVec.toNat pages
  rw [toNat_pageOf, toNat_pageOf] at pages
  rw [← Nat.div_add_mod address.byteNumber.toNat unit.pageSize, pages, remainder,
    Nat.div_add_mod]

/-! ## What is stored outside the tables -/

variable {places : List Address} {bytes : List Byte}

theorem asidAt_stored (stored : Stored (unit.tableSlots memory) memory places bytes kept)
    (address : VirtualAddress) : unit.asidAt kept address = unit.asidAt memory address :=
  unit.asid_stored stored _

theorem frameAt_stored (stored : Stored (unit.tableSlots memory) memory places bytes kept)
    (address : VirtualAddress) : unit.frameAt kept address = unit.frameAt memory address := by
  have frame (memory : μ) (asid : BitVec 16) :
      (unit.pageAt memory asid address.byteNumber).map (fun lookup => lookup.entry.frameAddress) =
        ((unit.pageAt memory asid address.byteNumber).map fun lookup => lookup.entry.frame).map
          fun frame : HalfWord => (frame.setWidth 64 <<< 9 : Address) := by
    rw [Option.map_map]
    rfl
  unfold frameAt
  simp only [asidAt_stored stored, frame, unit.pageFrame_marked stored]

theorem placeAt_stored (stored : Stored (unit.tableSlots memory) memory places bytes kept)
    (address : VirtualAddress) : unit.placeAt kept address = unit.placeAt memory address := by
  rw [placeAt, frameAt_stored stored, placeAt]

theorem systemBit_stored (stored : Stored (unit.tableSlots memory) memory places bytes kept) :
    unit.systemBit kept = unit.systemBit memory := by
  funext bit
  rw [systemBit, asidAt_stored stored, systemBit]

theorem OwnFrames.of_stored (own : unit.OwnFrames memory)
    (stored : Stored (unit.tableSlots memory) memory places bytes kept) : unit.OwnFrames kept := by
  have tables := unit.tableSlots_congr stored.slots
  constructor
  · intro address frame
    rw [frameAt_stored stored]
    exact own.aligned
  · intro address other frame
    rw [frameAt_stored stored, frameAt_stored stored, asidAt_stored stored, asidAt_stored stored]
    exact own.distinct
  · intro address real
    rw [placeAt_stored stored, stored.slots]
    exact own.exist
  · intro address other real place
    rw [placeAt_stored stored, placeAt_stored stored, stored.slots, stored.slots]
    exact own.apart
  · intro address real
    rw [placeAt_stored stored, stored.slots, tables]
    exact own.outside

/-! ## Stores -/

omit [SlottedBus μ] in
theorem placeAt_of_systemBit {bit other : BitAddress}
    (same : unit.systemBit memory other = unit.systemBit memory bit) :
    unit.placeAt memory other.byte = unit.placeAt memory bit.byte ∧ other.place = bit.place := by
  obtain ⟨segments, numbers⟩ := Prod.mk.inj same
  obtain ⟨bytes, places⟩ := BitAddress.number_eq_iff.mp numbers
  unfold placeAt frameAt
  rw [segments, bytes]
  exact ⟨rfl, places⟩

/-- What is stored in one bit is stored in the bits that are the same, and in no other. -/
theorem OwnFrames.bitAt_stored {bit : BitAddress} {value : Bool} (own : unit.OwnFrames memory)
    (placed : unit.placeAt memory bit.byte = some real)
    (stored : Stored (unit.tableSlots memory) memory [real]
      [withByteBit (byteAt memory real) bit.place value] kept) (other : BitAddress) :
    unit.bitAt kept other =
      (if unit.systemBit memory other = unit.systemBit memory bit then some value
        else none).or (unit.bitAt memory other) := by
  have written : byteAt kept real = withByteBit (byteAt memory real) bit.place value :=
    List.singleton_inj.mp stored.bytes
  unfold bitAt
  rw [placeAt_stored stored]
  by_cases same : unit.systemBit memory other = unit.systemBit memory bit
  · obtain ⟨byte, number⟩ := placeAt_of_systemBit same
    rw [if_pos same, byte, placed, Option.map_some, written, number, byteBit_withByteBit,
      if_pos rfl]
    rfl
  rw [if_neg same, Option.none_or]
  cases there : unit.placeAt memory other.byte with
  | none => rfl
  | some place =>
    rw [Option.map_some, Option.map_some]
    by_cases cell : cellAt memory place = cellAt memory real
    · -- Another bit of the same byte has another place there.
      have exist := own.exist there
      obtain ⟨slots, indices⟩ := (cellAt_eq_iff exist).mp cell
      have byte (memory : μ) (slots : SlottedBus.slot memory place = SlottedBus.slot memory real) :
          byteAt memory place = byteAt memory real := by
        rw [byteAt, SlottedBus.readWord_congr memory slots, indices, byteAt]
      obtain ⟨segments, bytes⟩ := own.injective there placed cell
      have differ : other.place ≠ bit.place := fun places =>
        same (Prod.ext segments (BitAddress.number_eq_iff.mpr ⟨bytes, places⟩))
      rw [byte kept (by rwa [stored.slots, stored.slots]), written, byteBit_withByteBit,
        if_neg differ, byte memory slots]
    · rw [stored.others place (own.outside there) (by simpa using cell)]

theorem OwnFrames.bitAt_keeps (own : unit.OwnFrames memory)
    (keeps : Keeps (unit.tableSlots memory) memory kept) : unit.bitAt kept = unit.bitAt memory := by
  funext bit
  unfold bitAt
  rw [placeAt_stored keeps]
  cases placed : unit.placeAt memory bit.byte with
  | none => rfl
  | some real => rw [Option.map_some, Option.map_some, keeps.byteAt_eq (own.outside placed)]

end

/-! ## What translations leave in the registers does not matter -/

namespace SharesTables

section

variable [Bus μ] {unit left : TranslationUnit} (shares : unit.SharesTables left) (memory : μ)

include shares

theorem frameAt_eq : left.frameAt memory = unit.frameAt memory := by
  obtain ⟨_, _, rfl⟩ := shares
  funext address
  unfold frameAt
  simp only [pageAt_tracing]
  rfl

theorem placeAt_eq : left.placeAt memory = unit.placeAt memory := by
  funext address
  rw [placeAt, shares.frameAt_eq, placeAt]
  obtain ⟨_, _, rfl⟩ := shares
  rfl

theorem bitAt_eq : left.bitAt memory = unit.bitAt memory := by
  funext bit
  rw [bitAt, shares.placeAt_eq, bitAt]

end

section

variable [Bus μ] [SlottedBus μ] {unit left : TranslationUnit} {memory : μ}

theorem entrySlots_eq (shares : unit.SharesTables left) (memory : μ) :
    left.entrySlots memory = unit.entrySlots memory := by
  obtain ⟨_, _, rfl⟩ := shares
  rfl

theorem ownFrames (shares : unit.SharesTables left) (own : unit.OwnFrames memory) :
    left.OwnFrames memory := by
  have frames := shares.frameAt_eq memory
  have places := shares.placeAt_eq memory
  obtain ⟨_, _, rfl⟩ := shares
  constructor
  · rw [frames]
    exact own.aligned
  · rw [frames]
    exact own.distinct
  · rw [places]
    exact own.exist
  · rw [places]
    exact own.apart
  · rw [places]
    exact own.outside

end

end SharesTables

end TranslationUnit

end Mainframe
