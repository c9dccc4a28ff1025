import Mainframe.Proofs.IndependentTranslations

/-! The bytes of a page. In an aligned frame they follow one another as in the segment, so that one
translation serves all of them, as long as what is done with them spares the tables. -/

set_option autoImplicit false

namespace Mainframe

variable {α μ : Type}

/-! ## Bytes of one page -/

namespace TranslationUnit

variable (unit : TranslationUnit)

theorem offset_below {address : VirtualAddress} {distance bound : Nat}
    (whole : unit.pageSize ∣ bound) (small : bound ≤ 2 ^ 32)
    (below : address.byteNumber.toNat < bound)
    (inside : distance < unit.pageRemaining address.byteNumber) :
    (address.offset distance).byteNumber.toNat < bound ∧
      unit.pageOf (address.offset distance).byteNumber = unit.pageOf address.byteNumber ∧
      (address.offset distance).byteNumber.toNat % unit.pageSize =
        address.byteNumber.toNat % unit.pageSize + distance := by
  obtain ⟨pages, rfl⟩ := whole
  have first := Nat.div_add_mod address.byteNumber.toNat unit.pageSize
  unfold pageRemaining at inside
  -- The page ends where the bound is, or before.
  have page : address.byteNumber.toNat / unit.pageSize < pages := Nat.div_lt_of_lt_mul below
  have ends := Nat.mul_le_mul_left unit.pageSize (Nat.succ_le_of_lt page)
  rw [Nat.mul_succ] at ends
  have number : (address.offset distance).byteNumber.toNat =
      address.byteNumber.toNat + distance := by
    simp only [VirtualAddress.offset, BitVec.ofInt_natCast, BitVec.toNat_add, BitVec.toNat_ofNat]
    omega
  have same : (address.byteNumber.toNat + distance) / unit.pageSize =
      address.byteNumber.toNat / unit.pageSize :=
    Nat.div_eq_of_lt_le (by rw [Nat.mul_comm]; omega) (by rw [Nat.succ_mul, Nat.mul_comm]; omega)
  have last := Nat.div_add_mod (address.byteNumber.toNat + distance) unit.pageSize
  rw [same] at last
  rw [number]
  refine ⟨by omega, BitVec.eq_of_toNat_eq ?_, by omega⟩
  rw [toNat_pageOf, toNat_pageOf, number, same]

theorem offset_within {address : VirtualAddress} {distance : Nat}
    (below : address.byteNumber.toNat < 2 ^ 31)
    (inside : distance < unit.pageRemaining address.byteNumber) :
    (address.offset distance).byteNumber.toNat < 2 ^ 31 ∧
      unit.pageOf (address.offset distance).byteNumber = unit.pageOf address.byteNumber ∧
      (address.offset distance).byteNumber.toNat % unit.pageSize =
        address.byteNumber.toNat % unit.pageSize + distance :=
  unit.offset_below (Nat.dvd_trans unit.pageSize_dvd (by decide)) (by decide) below inside

theorem pieces_ne_zero (byteNumber : HalfWord) (count : Nat) :
    ∀ piece ∈ unit.pieces byteNumber count, piece ≠ 0 := by
  intro piece member
  simpa using (List.mem_filter.mp member).2

end TranslationUnit

namespace Access

def onward (access : Access) (distance : Nat) : Access :=
  { access with address := access.address.offset distance }

theorem onward_zero (access : Access) : access.onward 0 = access := by
  simp [onward]

theorem onward_onward (access : Access) (first second : Nat) :
    (access.onward first).onward second = access.onward (first + second) := by
  simp [onward, VirtualAddress.offset_offset]

section

variable [Bus μ] (access : Access) (unit : TranslationUnit) (memory : μ)

/-- All bytes before that of a number translate, each on its own. -/
def Reaches (index : Nat) : Prop :=
  ∀ earlier < index, ∃ real, (access.onward earlier).outcome unit memory = .ok real

/-- Something holds of each of so many bytes, up to the first that does not translate. -/
def Along (count : Nat) (holds : Access → Prop) : Prop :=
  ∀ index < count, access.Reaches unit memory index → holds (access.onward index)

/-- The frame of the page, if there is one, begins at a multiple of the page size. -/
def FrameAligned : Prop :=
  ∀ place ∈ access.place unit memory,
    unit.pageSize ∣ (unit.entryAt memory place).frameAddress.toNat

instance : Decidable (access.FrameAligned unit memory) :=
  Option.decidableForallMem (access.place unit memory)

variable {access unit memory}

theorem reaches_add {first second : Nat} :
    access.Reaches unit memory (first + second) ↔
      access.Reaches unit memory first ∧ (access.onward first).Reaches unit memory second := by
  unfold Reaches
  constructor
  · refine fun all => ⟨fun earlier before => all earlier (by omega), fun earlier before => ?_⟩
    rw [onward_onward]
    exact all _ (by omega)
  · rintro ⟨here, there⟩ earlier before
    by_cases inside : earlier < first
    · exact here earlier inside
    · have found := there (earlier - first) (by omega)
      rwa [onward_onward, Nat.add_sub_of_le (Nat.le_of_not_lt inside)] at found

theorem reaches_or_fails (count : Nat) :
    access.Reaches unit memory count ∨ ∃ index < count, access.Reaches unit memory index ∧
      ∃ fault, (access.onward index).outcome unit memory = .error fault := by
  induction count with
  | zero => exact .inl fun _ before => (Nat.not_lt_zero _ before).elim
  | succ count ih =>
    rcases ih with all | ⟨index, inside, reaches⟩
    · cases last : (access.onward count).outcome unit memory with
      | error fault => exact .inr ⟨count, Nat.lt_succ_self _, all, fault, last⟩
      | ok real =>
        refine .inl fun earlier before => ?_
        rcases Nat.lt_succ_iff_lt_or_eq.mp before with inside | rfl
        · exact all earlier inside
        · exact ⟨real, last⟩
    · exact .inr ⟨index, Nat.lt_succ_of_lt inside, reaches⟩

theorem reaches_one {real : Address} (succeeds : access.outcome unit memory = .ok real) :
    access.Reaches unit memory 1 := by
  intro earlier before
  obtain rfl : earlier = 0 := by omega
  exact ⟨real, by rwa [onward_zero]⟩

namespace Along

variable {holds : Access → Prop}

theorem first {count : Nat} (along : access.Along unit memory count holds) (some : 0 < count) :
    holds access := by
  have here := along 0 some fun _ before => (Nat.not_lt_zero _ before).elim
  rwa [onward_zero] at here

theorem mono {count : Nat} {wider : Access → Prop} (along : access.Along unit memory count holds)
    (weakens : ∀ byte, holds byte → wider byte) : access.Along unit memory count wider :=
  fun index inside reaches => weakens _ (along index inside reaches)

theorem left {first second : Nat} (along : access.Along unit memory (first + second) holds) :
    access.Along unit memory first holds :=
  fun index inside => along index (by omega)

theorem right {first second : Nat} (along : access.Along unit memory (first + second) holds)
    (reaches : access.Reaches unit memory first) :
    (access.onward first).Along unit memory second holds := by
  intro index inside there
  rw [onward_onward]
  exact along _ (by omega) (reaches_add.mpr ⟨reaches, there⟩)

end Along

/-- In an aligned frame the bytes of a page follow one another. -/
theorem outcome_onward {real : Address} (succeeds : access.outcome unit memory = .ok real)
    (aligned : access.FrameAligned unit memory) {distance : Nat}
    (inside : distance < unit.pageRemaining access.address.byteNumber) :
    (access.onward distance).outcome unit memory = .ok (real + BitVec.ofNat 64 distance) ∧
      (access.onward distance).place unit memory = access.place unit memory := by
  obtain ⟨index, placed, -, finds⟩ := place_of_ok succeeds
  obtain ⟨below, named, allowed, other, found, rfl⟩ := outcome_eq_ok_iff.mp succeeds
  obtain rfl := finds.unique found
  obtain ⟨low, page, offset⟩ := unit.offset_within below inside
  rw [← page] at found
  have there : (access.onward distance).outcome unit memory = .ok _ :=
    outcome_eq_ok_iff.mpr ⟨low, named, allowed, index, found, rfl⟩
  refine ⟨there.trans (congrArg Except.ok (BitVec.eq_of_toNat_eq ?_)), ?_⟩
  · have frame : unit.FrameAligned ⟨index, 0, unit.entryAt memory index, 0⟩ := aligned index placed
    have real (byteNumber : HalfWord) := unit.toNat_pageAddress frame byteNumber
    simp only [unit.setWidth_offset] at real
    have bounded := BitVec.isLt ((unit.entryAt memory index).frameAddress |||
      BitVec.ofNat 64 ((access.address.offset distance).byteNumber.toNat % unit.pageSize))
    rw [real, offset] at bounded
    rw [onward, real, offset, BitVec.toNat_add, real, BitVec.toNat_ofNat]
    omega
  · obtain ⟨place, thereToo, -, again⟩ := place_of_ok there
    rw [thereToo, placed, again.unique found]

theorem reaches_page {real : Address} (succeeds : access.outcome unit memory = .ok real)
    (aligned : access.FrameAligned unit memory) {count : Nat}
    (fits : count ≤ unit.pageRemaining access.address.byteNumber) :
    access.Reaches unit memory count :=
  fun _ before => ⟨_, (outcome_onward succeeds aligned (Nat.lt_of_lt_of_le before fits)).1⟩

end

end Access

/-! ## Activities that leave the tables alone -/

namespace TranslationUnit

section

variable [Bus μ] [SlottedBus μ] (unit : TranslationUnit)

def InTables (memory : μ) (address : Address) : Prop :=
  (∃ segment ≤ unit.segmentLimit.toNat,
    SlottedBus.slot memory (unit.segmentEntryAddress segment) = SlottedBus.slot memory address) ∨
  ∃ index, unit.InTable index ∧
    SlottedBus.slot memory (unit.pageEntryAddress index) = SlottedBus.slot memory address

/-- Wherever the slots are those of a memory, the activity changes no word of its tables. -/
def Spares (start : μ) (activity : Activity α) : Prop :=
  ∀ memory : μ, (∀ address, SlottedBus.slot memory address = SlottedBus.slot start address) →
    (∀ address, SlottedBus.slot (activity.perform memory).2 address =
      SlottedBus.slot memory address) ∧
    ∀ address, unit.InTables start address →
      Bus.readWord (activity.perform memory).2 address = Bus.readWord memory address

variable {unit} {start memory : μ}

theorem Spares.reading {activity : Activity α} (reads : activity.OnlyReads) :
    unit.Spares start activity := by
  intro memory _
  rw [reads.perform_memory]
  exact ⟨fun _ => rfl, fun _ _ => rfl⟩

theorem Spares.writeByte {address : Address} (byte : Byte)
    (outside : SlottedBus.slot start address ≠ none → ¬ unit.InTables start address) :
    unit.Spares start (Activity.writeByte address byte) := by
  intro memory slots
  refine ⟨fun other => SlottedBus.slot_writeWord memory address other _, fun other within => ?_⟩
  change Bus.readWord (Bus.writeWord memory address _) other = _
  rw [SlottedBus.readWord_writeWord, if_neg]
  rintro ⟨same, exist⟩
  rw [slots, slots] at same
  rw [slots, same] at exist
  unfold InTables at within
  rw [same] at within
  exact outside exist within

/-- A memory in which searches go as at the start and the page with an entry has been accessed. -/
structure AfterAccess (unit : TranslationUnit) (start : μ) (index : PageIndex) (modes : AccessModes)
    (memory : μ) : Prop where
  alike : unit.SearchesAlike start memory
  within : unit.InTable index
  marked : Bus.readWord memory (unit.pageEntryAddress index) ||| PageEntry.marks modes =
    Bus.readWord memory (unit.pageEntryAddress index)

namespace Spares

variable {activity : Activity α} (spares : unit.Spares start activity)

include spares

theorem alike (alike : unit.SearchesAlike start memory) :
    unit.SearchesAlike start (activity.perform memory).2 := by
  obtain ⟨slots, words⟩ := spares memory alike.slots
  refine ⟨fun address => (slots address).trans (alike.slots address), ?_, ?_⟩
  · intro segment reached
    rw [words _ (.inl ⟨segment, reached, rfl⟩), alike.segments segment reached]
  · intro index within
    rw [words _ (.inr ⟨index, within, rfl⟩), alike.entries index within]

theorem afterAccess {index : PageIndex} {modes : AccessModes}
    (after : unit.AfterAccess start index modes memory) :
    unit.AfterAccess start index modes (activity.perform memory).2 where
  alike := spares.alike after.alike
  within := after.within
  marked := by
    obtain ⟨-, words⟩ := spares memory after.alike.slots
    rw [words _ (.inr ⟨index, after.within, rfl⟩), after.marked]

end Spares

theorem SearchesAlike.afterAccess [ForgetfulBus μ] (alike : unit.SearchesAlike start memory)
    (apart : unit.TablesApart start) {index : PageIndex} (within : unit.InTable index)
    (modes : AccessModes) :
    unit.AfterAccess start index modes (unit.marked memory index modes) where
  alike := alike.marked apart within modes
  within := within
  marked := by rw [readWord_marked, if_pos rfl, BitVec.or_assoc, BitVec.or_self]

theorem AfterAccess.marked_eq {index : PageIndex} {modes : AccessModes}
    (after : unit.AfterAccess start index modes memory) : unit.marked memory index modes = memory :=
  if_pos after.marked

end

end TranslationUnit

def Access.OutsideTables [Bus μ] [SlottedBus μ] (access : Access) (unit : TranslationUnit)
    (memory : μ) : Prop :=
  ∀ real, access.outcome unit memory = .ok real →
    SlottedBus.slot memory real ≠ none → ¬ unit.InTables memory real

end Mainframe
