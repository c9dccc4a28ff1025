import Mainframe.Proofs.PageMap

/-! Translations through the same tables do not disturb one another. Of a page table entry they
change the marks of use alone, which take no part in any search, so each of them goes as it would
on its own. Marks only add up, so their order does not matter either. -/

set_option autoImplicit false

namespace Mainframe

variable {μ : Type}

/-! ## Memories that forget -/

/-- A memory of slots in which each slot keeps the word last written to it, and nothing more of
what was written. Where there is no slot, reads give all ones. -/
class ForgetfulBus (μ : Type) [Bus μ] [SlottedBus μ] : Prop where
  writeWord_congr (memory : μ) {address other : Address} (word : Word) :
    SlottedBus.slot memory address = SlottedBus.slot memory other →
      Bus.writeWord memory address word = Bus.writeWord memory other word
  writeWord_readWord (memory : μ) (address : Address) :
    Bus.writeWord memory address (Bus.readWord memory address) = memory
  writeWord_writeWord (memory : μ) (address : Address) (first second : Word) :
    Bus.writeWord (Bus.writeWord memory address first) address second =
      Bus.writeWord memory address second
  writeWord_comm (memory : μ) {address other : Address} (first second : Word) :
    SlottedBus.slot memory address ≠ SlottedBus.slot memory other →
      Bus.writeWord (Bus.writeWord memory address first) other second =
        Bus.writeWord (Bus.writeWord memory other second) address first
  readWord_missing (memory : μ) {address : Address} :
    SlottedBus.slot memory address = none → Bus.readWord memory address = Word.allOnes

instance : ForgetfulBus RealMemory where
  writeWord_congr memory address other word same := by
    change memory.save address word = memory.save other word
    change memory.slot address = memory.slot other at same
    unfold RealMemory.save
    rw [same]
  writeWord_readWord memory address := by
    change memory.save address (memory.load address) = memory
    unfold RealMemory.save RealMemory.load
    cases memory.slot address with
    | none => rfl
    | some index => exact RealMemory.ext rfl rfl (WordStore.set_get _ _)
  writeWord_writeWord memory address first second := by
    change (memory.save address first).save address second = memory.save address second
    rw [RealMemory.save, RealMemory.slot_save]
    unfold RealMemory.save
    cases memory.slot address with
    | none => rfl
    | some index => exact RealMemory.ext rfl rfl (WordStore.set_set _ _ _ _)
  writeWord_comm memory address other first second differ := by
    change (memory.save address first).save other second =
      (memory.save other second).save address first
    change memory.slot address ≠ memory.slot other at differ
    rw [RealMemory.save, RealMemory.slot_save, RealMemory.save.eq_def (memory.save other second),
      RealMemory.slot_save]
    unfold RealMemory.save
    cases here : memory.slot address with
    | none => cases memory.slot other <;> rfl
    | some index =>
      cases there : memory.slot other with
      | none => rfl
      | some place =>
        have apart : index ≠ place := by
          rintro rfl
          exact differ (here.trans there.symm)
        exact RealMemory.ext rfl rfl (WordStore.set_comm _ apart _ _)
  readWord_missing memory address missing := by
    change memory.load address = Word.allOnes
    change memory.slot address = none at missing
    unfold RealMemory.load
    rw [missing]

instance : ForgetfulBus CyclicMemory where
  writeWord_congr memory address other word same := by
    have place : memory.slot address = memory.slot other := Option.some.inj same
    exact CyclicMemory.ext rfl (congrArg (memory.store.set · word) place)
  writeWord_readWord memory address := CyclicMemory.ext rfl (WordStore.set_get _ _)
  writeWord_writeWord memory address first second := CyclicMemory.ext rfl (WordStore.set_set _ _ _ _)
  writeWord_comm memory address other first second differ := by
    have apart : memory.slot address ≠ memory.slot other := fun same => differ (congrArg some same)
    exact CyclicMemory.ext rfl (WordStore.set_comm _ apart _ _)
  readWord_missing memory address missing := by cases missing

/-! ## Marks add up -/

theorem PageEntry.getLsbD_marks (modes : AccessModes) (bit : Nat) :
    (marks modes).getLsbD bit = true ↔ bit = 61 ∨ bit = 60 ∧ modes.write = true := by
  by_cases inside : bit < 64
  · rw [BitVec.getLsbD_eq_getElem inside, getElem_marks]
    simp
  · rw [BitVec.getLsbD_of_ge _ _ (Nat.le_of_not_lt inside)]
    simp only [Bool.false_eq_true, false_iff]
    omega

namespace TranslationUnit

section

variable [Bus μ] [SlottedBus μ] (unit : TranslationUnit) (memory : μ) (index other : PageIndex)
  (modes access : AccessModes)

theorem slot_marked (address : Address) :
    SlottedBus.slot (unit.marked memory index modes) address = SlottedBus.slot memory address :=
  (unit.rewrites_marked memory index modes).slots address

variable [ForgetfulBus μ]

theorem marked_eq :
    unit.marked memory index modes = Bus.writeWord memory (unit.pageEntryAddress index)
      (Bus.readWord memory (unit.pageEntryAddress index) ||| PageEntry.marks modes) := by
  unfold marked
  dsimp only
  split
  · next same => rw [same, ForgetfulBus.writeWord_readWord]
  · rfl

theorem readWord_marked (address : Address) :
    Bus.readWord (unit.marked memory index modes) address =
      if SlottedBus.slot memory address = SlottedBus.slot memory (unit.pageEntryAddress index) then
        Bus.readWord memory address ||| PageEntry.marks modes
      else Bus.readWord memory address := by
  rw [marked_eq, SlottedBus.readWord_writeWord]
  by_cases same : SlottedBus.slot memory address =
      SlottedBus.slot memory (unit.pageEntryAddress index)
  · rw [if_pos same, ← SlottedBus.readWord_congr memory same]
    split
    · rfl
    · next missing =>
      -- A word that does not exist has every mark already.
      have none : SlottedBus.slot memory address = none :=
        Classical.not_not.mp fun exist => missing ⟨same, exist⟩
      rw [ForgetfulBus.readWord_missing memory none, Word.allOnes, BitVec.allOnes_or]
  · rw [if_neg same, if_neg fun both => same both.1]

theorem marked_marked (same : SlottedBus.slot memory (unit.pageEntryAddress index) =
      SlottedBus.slot memory (unit.pageEntryAddress other)) :
    unit.marked (unit.marked memory index modes) other access =
      Bus.writeWord memory (unit.pageEntryAddress other)
        (Bus.readWord memory (unit.pageEntryAddress other) |||
          (PageEntry.marks modes ||| PageEntry.marks access)) := by
  rw [marked_eq, readWord_marked, if_pos same.symm, BitVec.or_assoc, marked_eq,
    ForgetfulBus.writeWord_congr memory _ same, ForgetfulBus.writeWord_writeWord]

theorem marked_comm :
    unit.marked (unit.marked memory index modes) other access =
      unit.marked (unit.marked memory other access) index modes := by
  -- In one word the marks add up; in two words neither write meets the other.
  by_cases same : SlottedBus.slot memory (unit.pageEntryAddress index) =
      SlottedBus.slot memory (unit.pageEntryAddress other)
  · rw [marked_marked unit memory index other modes access same,
      marked_marked unit memory other index access modes same.symm, BitVec.or_comm (PageEntry.marks modes),
      SlottedBus.readWord_congr memory same, ForgetfulBus.writeWord_congr memory _ same]
  · rw [marked_eq, readWord_marked, if_neg (Ne.symm same), marked_eq,
      marked_eq unit _ index, readWord_marked, if_neg same, marked_eq,
      ForgetfulBus.writeWord_comm memory _ _ same]

end

/-! ## Searches are blind to marks -/

section

variable [Bus μ] [SlottedBus μ] (unit : TranslationUnit)

def TablesApart (memory : μ) : Prop :=
  ∀ segment ≤ unit.segmentLimit.toNat, ∀ index, unit.InTable index →
    SlottedBus.slot memory (unit.segmentEntryAddress segment) ≠ none →
      SlottedBus.slot memory (unit.segmentEntryAddress segment) ≠
        SlottedBus.slot memory (unit.pageEntryAddress index)

/-- The second memory has the tables of the first, but for marks of use in page table entries. -/
structure SearchesAlike (start memory : μ) : Prop where
  slots : ∀ address, SlottedBus.slot memory address = SlottedBus.slot start address
  segments : ∀ segment ≤ unit.segmentLimit.toNat,
    Bus.readWord memory (unit.segmentEntryAddress segment) =
      Bus.readWord start (unit.segmentEntryAddress segment)
  entries : ∀ index, unit.InTable index →
    Bus.readWord memory (unit.pageEntryAddress index) ||| PageEntry.marks .forUpdate =
      Bus.readWord start (unit.pageEntryAddress index) ||| PageEntry.marks .forUpdate

theorem inTable_probedPlace (asid : BitVec 16) (page : HalfWord) (probe : Nat) :
    unit.InTable (unit.probedPlace asid page probe) := by
  have bounded : (unit.probedPlace asid page probe).toNat ≤ unit.indexMask.toNat := by
    rw [probedPlace, BitVec.toNat_and]
    exact Nat.and_le_right
  rw [toNat_indexMask] at bounded
  unfold InTable
  omega

variable {unit} {start memory : μ}

namespace SearchesAlike

theorem refl : unit.SearchesAlike start start := ⟨fun _ => rfl, fun _ _ => rfl, fun _ _ => rfl⟩

theorem marked [ForgetfulBus μ] (alike : unit.SearchesAlike start memory)
    (apart : unit.TablesApart start) {index : PageIndex} (within : unit.InTable index)
    (modes : AccessModes) : unit.SearchesAlike start (unit.marked memory index modes) where
  slots address := (unit.slot_marked memory index modes address).trans (alike.slots address)
  segments segment reached := by
    rw [readWord_marked]
    split
    · next same =>
      -- Such a word exists in neither table.
      rw [alike.slots, alike.slots] at same
      have missing : SlottedBus.slot start (unit.segmentEntryAddress segment) = none :=
        Classical.not_not.mp fun exist => apart segment reached index within exist same
      have before : SlottedBus.slot memory (unit.segmentEntryAddress segment) = none :=
        (alike.slots _).trans missing
      rw [ForgetfulBus.readWord_missing memory before, ForgetfulBus.readWord_missing start missing,
        Word.allOnes, BitVec.allOnes_or]
    · exact alike.segments segment reached
  entries place inside := by
    rw [readWord_marked, ← alike.entries place inside]
    split
    · rw [BitVec.or_assoc, OnlyMarks.or_marks]
    · rfl

variable (alike : unit.SearchesAlike start memory)

include alike

theorem descriptorOf_eq {address : VirtualAddress}
    (reached : address.segment.toNat ≤ unit.segmentLimit.toNat) :
    unit.descriptorOf memory address = unit.descriptorOf start address :=
  congrArg SegmentDescriptor.ofWord (alike.segments _ reached)

theorem lacksSegment_iff (address : VirtualAddress) :
    unit.LacksSegment memory address ↔ unit.LacksSegment start address := by
  unfold LacksSegment
  by_cases beyond : unit.segmentLimit.toNat < address.segment.toNat
  · simp [beyond]
  · rw [alike.descriptorOf_eq (Nat.le_of_not_lt beyond)]

theorem entry_eq {index : PageIndex} (within : unit.InTable index) :
    (unit.entryAt memory index).valid = (unit.entryAt start index).valid ∧
      (unit.entryAt memory index).continues = (unit.entryAt start index).continues ∧
      (unit.entryAt memory index).identifier = (unit.entryAt start index).identifier ∧
      (unit.entryAt memory index).frame = (unit.entryAt start index).frame := by
  have entry := congrArg PageEntry.ofWord (alike.entries index within)
  rw [PageEntry.ofWord_or_marks, PageEntry.ofWord_or_marks] at entry
  obtain ⟨valid, continues, -, -, named, frame⟩ := PageEntry.mk.inj entry
  exact ⟨valid, continues, named, frame⟩

theorem carries_iff {index : PageIndex} (within : unit.InTable index) (identifier : BitVec 38) :
    (unit.entryAt memory index).Carries identifier ↔
      (unit.entryAt start index).Carries identifier := by
  obtain ⟨valid, -, named, -⟩ := alike.entry_eq within
  unfold PageEntry.Carries
  rw [valid, named]

theorem finds_iff (asid : BitVec 16) (page : HalfWord) (index : PageIndex) :
    unit.Finds unit.probedPlace memory asid page index ↔
      unit.Finds unit.probedPlace start asid page index := by
  have continues (probe : Nat) :=
    (alike.entry_eq (unit.inTable_probedPlace asid page probe)).2.1
  have carries (probe : Nat) := alike.carries_iff (unit.inTable_probedPlace asid page probe)
  unfold Finds
  simp only [continues, carries]

end SearchesAlike

end

end TranslationUnit

/-! ## One access -/

structure Access where
  address : VirtualAddress
  modes : AccessModes
  key : Byte

namespace Access

def translate (access : Access) (unit : TranslationUnit) :
    Activity (Except TranslationFault Address × TranslationUnit) :=
  unit.translate access.address access.modes access.key

variable [Bus μ]

def outcome (access : Access) (unit : TranslationUnit) (memory : μ) :
    Except TranslationFault Address :=
  ((access.translate unit).perform memory).1.1

/-- The place of the page table entry with which the access succeeds, if it does. -/
def place (access : Access) (unit : TranslationUnit) (memory : μ) : Option PageIndex :=
  match access.outcome unit memory with
  | .error _ => none
  | .ok _ => (unit.entryOf memory (unit.descriptorOf memory access.address).asid
      (unit.pageOf access.address.byteNumber)).map Prod.fst

def Uses [SlottedBus μ] (access : Access) (unit : TranslationUnit) (memory : μ)
    (address : Address) : Prop :=
  ∃ index, access.place unit memory = some index ∧
    SlottedBus.slot memory (unit.pageEntryAddress index) = SlottedBus.slot memory address

/-- What the access makes of a memory, if it goes there as it goes at the start. -/
def leave (access : Access) (unit : TranslationUnit) (start memory : μ) : μ :=
  match access.place unit start with
  | none => memory
  | some index => unit.marked memory index access.modes

variable {access : Access} {unit left : TranslationUnit} {start memory : μ}

theorem outcome_eq_ok_iff {real : Address} :
    access.outcome unit memory = .ok real ↔
      access.address.byteNumber.toNat < 2 ^ 31 ∧ ¬ unit.LacksSegment memory access.address ∧
        (unit.descriptorOf memory access.address).Allows access.modes access.address.ring
          access.key ∧
        ∃ index, unit.Finds unit.probedPlace memory (unit.descriptorOf memory access.address).asid
            (unit.pageOf access.address.byteNumber) index ∧
          real = (unit.entryAt memory index).frameAddress |||
            BitVec.ofNat 64 (access.address.byteNumber.toNat % unit.pageSize) := by
  have prescribed := unit.prescribes_translate memory access.address access.modes access.key
  unfold outcome translate
  constructor
  · intro succeeds
    generalize (unit.translate access.address access.modes access.key).perform memory = result
      at prescribed succeeds
    cases prescribed with
    | success below named allowed index found =>
      cases succeeds
      exact ⟨below, named, allowed, index, found, rfl⟩
    | _ => cases succeeds
  · rintro ⟨below, named, allowed, index, found, rfl⟩
    rw [prescribed.unique (.success below named allowed index found)]

theorem place_of_ok {real : Address} (succeeds : access.outcome unit memory = .ok real) :
    ∃ index, access.place unit memory = some index ∧
      ¬ unit.LacksSegment memory access.address ∧
      unit.Finds unit.probedPlace memory (unit.descriptorOf memory access.address).asid
        (unit.pageOf access.address.byteNumber) index := by
  obtain ⟨-, named, -, index, found, -⟩ := outcome_eq_ok_iff.mp succeeds
  refine ⟨index, ?_, named, found⟩
  unfold place
  rw [succeeds]
  dsimp only
  rw [TranslationUnit.entryOf_eq_some_iff.mpr ⟨found, rfl⟩]
  rfl

theorem place_spec {index : PageIndex} (placed : access.place unit memory = some index) :
    ¬ unit.LacksSegment memory access.address ∧
      unit.Finds unit.probedPlace memory (unit.descriptorOf memory access.address).asid
        (unit.pageOf access.address.byteNumber) index := by
  cases succeeds : access.outcome unit memory with
  | error fault =>
    unfold place at placed
    rw [succeeds] at placed
    cases placed
  | ok real =>
    obtain ⟨other, again, spec⟩ := place_of_ok succeeds
    cases again.symm.trans placed
    exact spec

variable [SlottedBus μ]

theorem leave_alike [ForgetfulBus μ] (access : Access) (apart : unit.TablesApart start)
    (alike : unit.SearchesAlike start memory) :
    unit.SearchesAlike start (access.leave unit start memory) := by
  unfold leave
  cases placed : access.place unit start with
  | none => exact alike
  | some index => exact alike.marked apart (place_spec placed).2.inTable access.modes

theorem perform_of_alike (access : Access) (alike : unit.SearchesAlike start memory) :
    ∃ last, unit.SharesTables last ∧ (access.translate unit).perform memory =
      ((access.outcome unit start, last), access.leave unit start memory) := by
  have prescribed := unit.prescribes_translate start access.address access.modes access.key
  have here := unit.prescribes_translate memory access.address access.modes access.key
  have same : unit.SharesTables unit := ⟨_, _, rfl⟩
  have named := not_congr (alike.lacksSegment_iff access.address)
  have segment (named : ¬ unit.LacksSegment start access.address) :
      unit.descriptorOf memory access.address = unit.descriptorOf start access.address :=
    alike.descriptorOf_eq (Nat.le_of_not_lt fun beyond => named (.inr (.inl beyond)))
  unfold leave place outcome translate
  generalize (unit.translate access.address access.modes access.key).perform start = result
    at prescribed ⊢
  -- The rule that applies at the start applies here, and the rules leave nothing open.
  cases prescribed with
  | addressSpecification beyond =>
    exact ⟨_, same.faulted _, here.unique (.addressSpecification beyond)⟩
  | invalidSegment below lacks =>
    have lacks := (alike.lacksSegment_iff _).mpr lacks
    exact ⟨_, same.faulted _, here.unique (.invalidSegment below lacks)⟩
  | accessViolation below valid refused =>
    rw [← segment valid] at refused
    exact ⟨_, same.faulted _, here.unique (.accessViolation below (named.mpr valid) refused)⟩
  | pageFault below valid allowed missing =>
    have missing := fun index => mt (alike.finds_iff _ _ index).mp (missing index)
    rw [← segment valid] at allowed missing
    exact ⟨_, same.faulted _, here.unique (.pageFault below (named.mpr valid) allowed missing)⟩
  | success below valid allowed index found =>
    have entry := TranslationUnit.entryOf_eq_some_iff.mpr ⟨found, rfl⟩
    have frame : (unit.entryAt memory index).frameAddress =
        (unit.entryAt start index).frameAddress := by
      unfold PageEntry.frameAddress
      rw [(alike.entry_eq found.inTable).2.2.2]
    have found := (alike.finds_iff _ _ index).mpr found
    dsimp only
    rw [entry]
    rw [← segment valid] at allowed found
    have success := here.unique (.success below (named.mpr valid) allowed index found)
    rw [frame] at success
    exact ⟨_, same.accessed _ _, success⟩

theorem perform_translate (access : Access) (shares : unit.SharesTables left)
    (alike : unit.SearchesAlike start memory) :
    ∃ last, unit.SharesTables last ∧ (access.translate left).perform memory =
      ((access.outcome unit start, last), access.leave unit start memory) := by
  obtain ⟨last, -, goes⟩ := access.perform_of_alike alike
  unfold translate TranslationUnit.translate at goes ⊢
  rw [Activity.perform_bind] at goes
  rw [shares.locate_eq, Activity.perform_bind]
  cases located : ((unit.locate access.address access.modes access.key).perform memory).1 with
  | error fault =>
    rw [located] at goes
    obtain ⟨outcome, kept⟩ := Prod.mk.inj goes
    exact ⟨_, shares.faulted access.address,
      Prod.ext (congrArg (·, left.faulted access.address) (congrArg Prod.fst outcome)) kept⟩
  | ok found =>
    rw [located] at goes
    obtain ⟨outcome, kept⟩ := Prod.mk.inj goes
    exact ⟨_, shares.accessed access.modes found.2,
      Prod.ext (congrArg (·, left.accessed access.modes found.2) (congrArg Prod.fst outcome)) kept⟩

end Access

namespace TranslationUnit

/-! ## Many accesses -/

def translateAll (unit : TranslationUnit) :
    List Access → Activity (List (Except TranslationFault Address) × TranslationUnit)
  | [] => return ([], unit)
  | access :: rest => do
    let (outcome, left) ← access.translate unit
    let (outcomes, last) ← left.translateAll rest
    return (outcome :: outcomes, last)

section

variable [Bus μ] [SlottedBus μ] (unit : TranslationUnit)

def leaveAll (start memory : μ) (accesses : List Access) : μ :=
  accesses.foldl (fun memory access => access.leave unit start memory) memory

variable {unit} {left : TranslationUnit} {start memory : μ}

theorem perform_translateAll [ForgetfulBus μ] (apart : unit.TablesApart start)
    (alike : unit.SearchesAlike start memory) (shares : unit.SharesTables left)
    (accesses : List Access) :
    ∃ last, unit.SharesTables last ∧
      unit.SearchesAlike start (unit.leaveAll start memory accesses) ∧
      (left.translateAll accesses).perform memory =
        ((accesses.map fun access => access.outcome unit start, last),
          unit.leaveAll start memory accesses) := by
  -- Each access meets a memory that searches take for the one at the start.
  induction accesses generalizing left memory with
  | nil => exact ⟨left, shares, alike, rfl⟩
  | cons access rest ih =>
    obtain ⟨next, keeps, goes⟩ := access.perform_translate shares alike
    obtain ⟨last, shares, alike, goesOn⟩ := ih (access.leave_alike apart alike) keeps
    refine ⟨last, shares, alike, ?_⟩
    rw [translateAll, Activity.perform_bind, goes]
    dsimp only
    rw [Activity.perform_bind, goesOn]
    rfl

theorem leaveAll_perm [ForgetfulBus μ] {accesses other : List Access}
    (same : accesses.Perm other) :
    unit.leaveAll start memory accesses = unit.leaveAll start memory other := by
  -- Where an access leaves its mark is settled at the start, so neighbours may change places.
  refine same.foldl_eq' (fun first _ second _ memory => ?_) memory
  unfold Access.leave
  cases first.place unit start with
  | none => rfl
  | some index =>
    cases second.place unit start with
    | none => rfl
    | some other => exact unit.marked_comm memory index other first.modes second.modes

theorem getLsbD_leave [ForgetfulBus μ] (alike : unit.SearchesAlike start memory) (access : Access)
    (address : Address) (bit : Nat) :
    (Bus.readWord (access.leave unit start memory) address).getLsbD bit = true ↔
      (Bus.readWord memory address).getLsbD bit = true ∨
        access.Uses unit start address ∧
          (bit = 61 ∨ bit = 60 ∧ access.modes.write = true) := by
  unfold Access.leave Access.Uses
  cases placed : access.place unit start with
  | none => simp
  | some index =>
    have uses : (∃ other, some index = some other ∧
        SlottedBus.slot start (unit.pageEntryAddress other) = SlottedBus.slot start address) ↔
          SlottedBus.slot memory address = SlottedBus.slot memory (unit.pageEntryAddress index) := by
      rw [alike.slots, alike.slots]
      simp [eq_comm]
    rw [uses, readWord_marked]
    split
    · next same => simp [same, BitVec.getLsbD_or, PageEntry.getLsbD_marks]
    · next other => simp [other]

theorem getLsbD_leaveAll [ForgetfulBus μ] (apart : unit.TablesApart start)
    (alike : unit.SearchesAlike start memory) (accesses : List Access) (address : Address)
    (bit : Nat) :
    (Bus.readWord (unit.leaveAll start memory accesses) address).getLsbD bit = true ↔
      (Bus.readWord memory address).getLsbD bit = true ∨
        ∃ access ∈ accesses, access.Uses unit start address ∧
          (bit = 61 ∨ bit = 60 ∧ access.modes.write = true) := by
  induction accesses generalizing memory with
  | nil => simp [leaveAll]
  | cons access rest ih =>
    have later := ih (access.leave_alike apart alike)
    rw [getLsbD_leave alike, or_assoc] at later
    simpa [leaveAll] using later

omit [SlottedBus μ] in
/-- A translation that finds its marks already made only reads. -/
theorem locate_reads (unit : TranslationUnit) (memory : μ) {address : VirtualAddress}
    {modes : AccessModes} {index : PageIndex} (key : Byte)
    (found : unit.Finds unit.probedPlace memory (unit.descriptorOf memory address).asid
      (unit.pageOf address.byteNumber) index)
    (marked : Bus.readWord memory (unit.pageEntryAddress index) ||| PageEntry.marks modes =
      Bus.readWord memory (unit.pageEntryAddress index)) :
    ∀ moment ∈ (unit.locate address modes key).history memory,
      ∃ place, moment = ⟨memory, .read place⟩ := by
  rcases unit.locate_cases memory address modes key with
    ⟨fault, -, reads⟩ | ⟨descriptor, lookup, translates, -, reads, history, only, -⟩
  · exact reads
  have segment := translates.segment
  rw [descriptorAt_eq] at segment
  split at segment
  · cases segment
  have named : unit.descriptorOf memory address = descriptor := Option.some.inj segment
  rw [named] at found
  have page := translates.page
  rw [pageAt_eq, entryOf_eq_some_iff.mpr ⟨found, rfl⟩] at page
  cases page
  -- The entry is not written back, because it is as the access would leave it.
  have touched : (unit.entryAt memory index).touched modes = unit.entryAt memory index := by
    rw [entryAt, ← PageEntry.ofWord_marked, marked]
  unfold PageLookup.mark at history
  rw [if_neg (not_not_intro touched), Activity.history_pure, List.append_nil] at history
  rw [history]
  exact only

structure Undisturbed (unit : TranslationUnit) (start : μ) (accesses : List Access)
    (outcomes : List (Except TranslationFault Address)) (left : TranslationUnit) (kept : μ) :
    Prop where
  outcomes : outcomes = accesses.map fun access => access.outcome unit start
  orders : ∀ other, accesses.Perm other → ((unit.translateAll other).perform start).2 = kept
  words : ∀ address bit, (Bus.readWord kept address).getLsbD bit = true ↔
    (Bus.readWord start address).getLsbD bit = true ∨
      ∃ access ∈ accesses, access.Uses unit start address ∧
        (bit = 61 ∨ bit = 60 ∧ access.modes.write = true)
  repeats : ∀ access ∈ accesses, ∀ real, access.outcome unit start = .ok real →
    ∀ moment ∈ (access.translate left).history kept, ∀ address word, ¬ moment.Writes address word

theorem reads_again [ForgetfulBus μ] (apart : unit.TablesApart start)
    (shares : unit.SharesTables left) {accesses : List Access} {access : Access}
    (member : access ∈ accesses) {real : Address} (succeeds : access.outcome unit start = .ok real) :
    ∀ moment ∈ (access.translate left).history (unit.leaveAll start start accesses),
      ∃ place, moment = ⟨unit.leaveAll start start accesses, .read place⟩ := by
  obtain ⟨-, -, alike, -⟩ := perform_translateAll apart .refl shares accesses
  obtain ⟨index, placed, named, found⟩ := Access.place_of_ok succeeds
  have words := getLsbD_leaveAll apart .refl accesses (unit.pageEntryAddress index)
  -- Both marks that the access makes are those of one of the accesses.
  have marked : Bus.readWord (unit.leaveAll start start accesses) (unit.pageEntryAddress index) |||
      PageEntry.marks access.modes =
        Bus.readWord (unit.leaveAll start start accesses) (unit.pageEntryAddress index) := by
    apply BitVec.eq_of_getLsbD_eq
    intro bit inside
    rw [Bool.eq_iff_iff, BitVec.getLsbD_or, Bool.or_eq_true, PageEntry.getLsbD_marks, words]
    exact or_iff_left_of_imp fun mark => .inr ⟨access, member, ⟨index, placed, rfl⟩, mark⟩
  have segment := alike.descriptorOf_eq
    (Nat.le_of_not_lt fun beyond => named (.inr (.inl beyond)))
  have found := (alike.finds_iff _ _ index).mpr found
  rw [← segment] at found
  have reads := unit.locate_reads (unit.leaveAll start start accesses) access.key found marked
  intro moment happens
  unfold Access.translate translate at happens
  rw [Activity.history_bind, shares.locate_eq] at happens
  rcases List.mem_append.mp happens with looking | after
  · exact reads moment looking
  · -- The registers are set without a word of memory.
    revert after
    split <;> exact fun after => (List.not_mem_nil after).elim

/-- Translations do not disturb one another, if the segment table and the page table are apart:
each has the outcome that it has on its own, their order does not matter, each entry is marked by
the accesses that succeed with it, no other word changes, and none of them writes again. -/
theorem translations_undisturbed [ForgetfulBus μ] (apart : unit.TablesApart start)
    (accesses : List Access) :
    let ((outcomes, left), kept) := (unit.translateAll accesses).perform start
    unit.Undisturbed start accesses outcomes left kept := by
  have same : unit.SharesTables unit := ⟨_, _, rfl⟩
  obtain ⟨left, shares, -, goes⟩ := perform_translateAll apart .refl same accesses
  rw [goes]
  refine ⟨rfl, fun other permuted => ?_, getLsbD_leaveAll apart .refl accesses,
    fun access member real succeeds moment happens address word => ?_⟩
  · obtain ⟨last, -, -, goesOtherwise⟩ := perform_translateAll apart .refl same other
    rw [goesOtherwise]
    exact (leaveAll_perm permuted).symm
  · obtain ⟨place, rfl⟩ := reads_again apart shares member succeeds moment happens
    exact Moment.not_writes_read _ place

end

end TranslationUnit

def pagedMemory : CyclicMemory := Bus.writeWord sharedMemory 0x1000 0x8000000000000008

theorem sharedUnit_apart : sharedUnit.TablesApart pagedMemory := by
  intro segment reached index within _
  unfold pagedMemory
  rw [SlottedBus.slot_writeWord, SlottedBus.slot_writeWord]
  exact sharedUnit_blank.apart segment reached index within

def sharedAccesses : List Access :=
  [⟨⟨11, 0, 0x10⟩, .forRead, 0⟩, ⟨⟨11, 0, 0x200⟩, .forRead, 0⟩, ⟨⟨11, 0, 0x18⟩, .forWrite, 0⟩]

theorem sharedAccesses_undisturbed :
    sharedUnit.TablesApart pagedMemory ∧
      let ((outcomes, left), kept) := (sharedUnit.translateAll sharedAccesses).perform pagedMemory
      sharedUnit.Undisturbed pagedMemory sharedAccesses outcomes left kept ∧
        outcomes = [.ok 0x1010, .error ⟨.pageFault, ⟨11, 0, 0x200⟩⟩, .ok 0x1018] ∧
        Bus.readWord kept 0x1000 = 0xB000000000000008 :=
  ⟨sharedUnit_apart, TranslationUnit.translations_undisturbed sharedUnit_apart sharedAccesses,
    by decide +kernel, by decide +kernel⟩

end Mainframe
