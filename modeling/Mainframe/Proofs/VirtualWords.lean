import Mainframe.Proofs.Access
import Mainframe.Proofs.Cells

/-! Words in virtual memory. Translations mark words of the tables and change nothing else, so an
address whose real byte lies outside the tables keeps both its place and its contents. What is
stored in an area of such bytes is what a later load finds there. -/

set_option autoImplicit false

namespace Mainframe

variable {μ : Type}

/-- The marks of use in a page table entry do not matter to a search. -/
theorem PageEntry.ofWord_or_marks (word : Word) :
    ofWord (word ||| marks .forUpdate) = { ofWord word with used := true, modified := true } := by
  have marks : marks .forUpdate = 0x3000000000000000 := rfl
  rw [marks]
  apply PageEntry.ext
  · simp [ofWord]
  · simp [ofWord]
  · simp [ofWord]
  · simp [ofWord]
  · simp [ofWord, BitVec.extractLsb'_or]
  · simp [ofWord, BitVec.extractLsb'_or]

namespace TranslationUnit

variable (unit : TranslationUnit)

section

variable [Bus μ]

/-- The real address that a virtual one is mapped to, whatever its rights. -/
def realAt (memory : μ) (address : VirtualAddress) : Option Address :=
  (unit.descriptorAt memory address.segment.toNat).bind fun descriptor =>
    (unit.pageAt memory descriptor.asid address.byteNumber).map PageLookup.address

def placesIn (memory : μ) : List Nat → VirtualAddress → Option (List Address)
  | [], _ => some []
  | count :: rest, address =>
    (unit.realAt memory address).bind fun real =>
      (placesIn memory rest (address.offset count)).map (run count real ++ ·)

def areaPlaces (memory : μ) : Nat → VirtualAddress → Option (List Address)
  | 0, _ => some []
  | count + 1, address =>
    (unit.placesIn memory (unit.pieces address.byteNumber 8) address).bind fun places =>
      (areaPlaces memory count (address.offset 8)).map (places ++ ·)

def wordsAt (memory : μ) (count : Nat) (address : VirtualAddress) : Option (List Word) :=
  (unit.areaPlaces memory count address).map fun places =>
    Activity.gathered (places.map (byteAt memory))

def tableSlots [SlottedBus μ] (memory : μ) (slot : Option Nat) : Prop :=
  (∃ segment ≤ unit.segmentLimit.toNat,
    SlottedBus.slot memory (unit.segmentEntryAddress segment) = slot) ∨
  ∃ index : PageIndex,
    SlottedBus.slot memory (unit.pageEntryAddress (index &&& unit.indexMask)) = slot

def entrySlots [SlottedBus μ] (memory : μ) (slot : Option Nat) : Prop :=
  ∃ index : PageIndex,
    SlottedBus.slot memory (unit.pageEntryAddress (index &&& unit.indexMask)) = slot

end

variable [Bus μ] [SlottedBus μ] {memory kept : μ}

theorem tableSlots_congr (slots : ∀ address, SlottedBus.slot kept address = SlottedBus.slot memory address) :
    unit.tableSlots kept = unit.tableSlots memory := by
  funext slot
  unfold tableSlots
  simp only [slots]

theorem entrySlots_congr (slots : ∀ address, SlottedBus.slot kept address = SlottedBus.slot memory address) :
    unit.entrySlots kept = unit.entrySlots memory := by
  funext slot
  unfold entrySlots
  simp only [slots]

theorem tableSlots_of_entrySlots {slot : Option Nat} (entry : unit.entrySlots memory slot) :
    unit.tableSlots memory slot := .inr entry

/-- What holds of the slot of every entry holds of all slots of the tables. -/
theorem holds_of_tableSlots (holds : Option Nat → Prop)
    (segments : ∀ segment ≤ unit.segmentLimit.toNat,
      holds (SlottedBus.slot memory (unit.segmentEntryAddress segment)))
    (pages : ∀ index < unit.pageTableEntries,
      holds (SlottedBus.slot memory (unit.pageEntryAddress (BitVec.ofNat 32 index))))
    {slot : Option Nat} (within : unit.tableSlots memory slot) : holds slot := by
  rcases within with ⟨segment, bounded, rfl⟩ | ⟨index, rfl⟩
  · exact segments segment bounded
  · have bounded : (index &&& unit.indexMask).toNat ≤ unit.indexMask.toNat := by
      rw [BitVec.toNat_and]
      exact Nat.and_le_right
    have found := pages _ (Nat.lt_succ_of_le bounded)
    rwa [BitVec.ofNat_toNat, BitVec.setWidth_eq] at found

/-! ## Marks do not move pages -/

omit [SlottedBus μ] in
theorem findEntry_marked {places : List PageIndex} (identifier : BitVec 38)
    (marked : ∀ index ∈ places,
      Bus.readWord kept (unit.pageEntryAddress index) ||| PageEntry.marks .forUpdate =
        Bus.readWord memory (unit.pageEntryAddress index) ||| PageEntry.marks .forUpdate) :
    ((unit.findEntry identifier places).perform kept).1.map (fun found => found.2.frame) =
      ((unit.findEntry identifier places).perform memory).1.map (fun found => found.2.frame) := by
  induction places with
  | nil => rfl
  | cons index rest ih =>
    have entry := congrArg PageEntry.ofWord (marked index List.mem_cons_self)
    rw [PageEntry.ofWord_or_marks, PageEntry.ofWord_or_marks] at entry
    have valid := congrArg PageEntry.valid entry
    have continues := congrArg PageEntry.continues entry
    have named := congrArg PageEntry.identifier entry
    have frame := congrArg PageEntry.frame entry
    dsimp only at valid continues named frame
    rw [findEntry, Activity.perform_bind, Activity.perform_bind]
    dsimp only [Activity.readWord, Activity.perform]
    rw [valid, continues, named]
    split
    · exact congrArg some frame
    split
    · exact ih fun place member => marked place (List.mem_cons_of_mem _ member)
    · rfl

theorem mem_window {asid : BitVec 16} {page : HalfWord} {index : PageIndex}
    (member : index ∈ unit.window asid page) : index &&& unit.indexMask = index := by
  obtain ⟨probe, -, rfl⟩ := List.mem_map.mp member
  rw [BitVec.and_assoc, BitVec.and_self]

theorem pageFrame_marked {places : List Address} {bytes : List Byte}
    (stored : Stored (unit.tableSlots memory) memory places bytes kept) (asid : BitVec 16)
    (byteNumber : HalfWord) :
    (unit.pageAt kept asid byteNumber).map (fun lookup => lookup.entry.frame) =
      (unit.pageAt memory asid byteNumber).map fun lookup => lookup.entry.frame := by
  have search : ∀ index ∈ unit.window asid (unit.pageOf byteNumber),
      Bus.readWord kept (unit.pageEntryAddress index) ||| PageEntry.marks .forUpdate =
        Bus.readWord memory (unit.pageEntryAddress index) ||| PageEntry.marks .forUpdate :=
    fun index member => stored.marked _ (.inr ⟨index, by rw [unit.mem_window member]⟩)
  have frames := unit.findEntry_marked (pageIdentifier asid (unit.pageOf byteNumber)) search
  have found (memory : μ) :
      (unit.pageAt memory asid byteNumber).map (fun lookup => lookup.entry.frame) =
        ((unit.findEntry (pageIdentifier asid (unit.pageOf byteNumber))
          (unit.window asid (unit.pageOf byteNumber))).perform memory).1.map
            fun found => found.2.frame := by
    unfold pageAt findPage
    rw [Activity.perform_bind, Activity.perform_pure, Option.map_map]
    rfl
  rw [found, found, frames]

theorem pageAt_marked {places : List Address} {bytes : List Byte}
    (stored : Stored (unit.tableSlots memory) memory places bytes kept) (asid : BitVec 16)
    (byteNumber : HalfWord) :
    (unit.pageAt kept asid byteNumber).map PageLookup.address =
      (unit.pageAt memory asid byteNumber).map PageLookup.address := by
  -- The real address depends on the frame of the entry alone.
  have place (memory : μ) : (unit.pageAt memory asid byteNumber).map PageLookup.address =
      ((unit.pageAt memory asid byteNumber).map fun lookup => lookup.entry.frame).map
        fun (frame : HalfWord) =>
          (frame.setWidth 64 <<< 9 ||| (byteNumber &&& unit.offsetMask).setWidth 64 : Address) := by
    rcases found : unit.pageAt memory asid byteNumber with _ | lookup
    · rfl
    · exact congrArg some (unit.pageAt_some found).2.2.2
  rw [place, place, unit.pageFrame_marked stored]

theorem asid_stored {places : List Address} {bytes : List Byte}
    (stored : Stored (unit.tableSlots memory) memory places bytes kept) (segment : Nat) :
    (unit.descriptorAt kept segment).map SegmentDescriptor.asid =
      (unit.descriptorAt memory segment).map SegmentDescriptor.asid := by
  rw [descriptorAt_eq, descriptorAt_eq]
  split
  · rfl
  next within =>
  have entry := congrArg SegmentDescriptor.ofWord (stored.marked (unit.segmentEntryAddress segment)
    (.inl ⟨_, Nat.le_of_not_lt within, rfl⟩))
  rw [SegmentDescriptor.ofWord_or_marks, SegmentDescriptor.ofWord_or_marks] at entry
  exact congrArg (fun descriptor => some descriptor.asid) entry

/-- What is stored outside the tables leaves every address where it was. -/
theorem realAt_stored {places : List Address} {bytes : List Byte}
    (stored : Stored (unit.tableSlots memory) memory places bytes kept) (address : VirtualAddress) :
    unit.realAt kept address = unit.realAt memory address := by
  have named (memory : μ) : unit.realAt memory address =
      ((unit.descriptorAt memory address.segment.toNat).map SegmentDescriptor.asid).bind
        fun asid => (unit.pageAt memory asid address.byteNumber).map PageLookup.address := by
    rw [realAt, Option.bind_map]
    rfl
  rw [named, named, unit.asid_stored stored]
  simp only [unit.pageAt_marked stored]

theorem placesIn_stored {places : List Address} {bytes : List Byte}
    (stored : Stored (unit.tableSlots memory) memory places bytes kept) (pieces : List Nat)
    (address : VirtualAddress) :
    unit.placesIn kept pieces address = unit.placesIn memory pieces address := by
  induction pieces generalizing address with
  | nil => rfl
  | cons count rest ih => rw [placesIn, placesIn, unit.realAt_stored stored, ih]

theorem areaPlaces_stored {places : List Address} {bytes : List Byte}
    (stored : Stored (unit.tableSlots memory) memory places bytes kept) (count : Nat)
    (address : VirtualAddress) :
    unit.areaPlaces kept count address = unit.areaPlaces memory count address := by
  induction count generalizing address with
  | zero => rfl
  | succ count ih => rw [areaPlaces, areaPlaces, unit.placesIn_stored stored, ih]

theorem pieces_aligned {address : VirtualAddress} (aligned : Execution.isAligned address = true) :
    unit.pieces address.byteNumber 8 = [8] := by
  unfold pieces
  rw [Nat.min_eq_left (unit.eight_le_pageRemaining (Execution.toNat_mod_eight aligned))]
  simp

omit [SlottedBus μ] in
theorem placesIn_cons {count : Nat} {rest : List Nat} {address : VirtualAddress} {real : Address}
    {places : List Address} (here : unit.realAt memory address = some real)
    (mapped : unit.placesIn memory (count :: rest) address = some places) :
    ∃ others, unit.placesIn memory rest (address.offset count) = some others ∧
      run count real ++ others = places := by
  rwa [placesIn, here, Option.bind_some, Option.map_eq_some_iff] at mapped

omit [SlottedBus μ] in
theorem placesIn_aligned {address : VirtualAddress} {real : Address}
    (aligned : Execution.isAligned address = true) (mapped : unit.realAt memory address = some real) :
    unit.placesIn memory (unit.pieces address.byteNumber 8) address = some (run 8 real) := by
  rw [unit.pieces_aligned aligned, placesIn, mapped, Option.bind_some, placesIn, Option.map_some,
    List.append_nil]

omit [SlottedBus μ] in
theorem byteIndex_realAt {address : VirtualAddress} {real : Address}
    (aligned : Execution.isAligned address = true) (mapped : unit.realAt memory address = some real) :
    Activity.byteIndex real = 0 := by
  obtain ⟨descriptor, -, found⟩ := Option.bind_eq_some_iff.mp mapped
  obtain ⟨lookup, page, rfl⟩ := Option.map_eq_some_iff.mp found
  obtain ⟨-, -, -, place⟩ := unit.pageAt_some page
  have offset : (address.byteNumber &&& unit.offsetMask).toNat % 8 = 0 := by
    rw [unit.toNat_and_offsetMask, Nat.mod_mod_of_dvd _ unit.eight_dvd_pageSize,
      Execution.toNat_mod_eight aligned]
  have frame : lookup.entry.frameAddress.toNat % 8 = 0 := by
    rw [PageEntry.frameAddress, BitVec.toNat_shiftLeft, Nat.shiftLeft_eq]
    omega
  have joined := Nat.or_mod_two_pow (a := lookup.entry.frameAddress.toNat)
    (b := (address.byteNumber &&& unit.offsetMask).toNat) (n := 3)
  rw [Activity.byteIndex, place, BitVec.toNat_or, BitVec.toNat_setWidth_of_le (by decide)]
  change _ % 8 = _ at joined
  rw [joined]
  change _ % 8 ||| _ % 8 = 0
  rw [frame, offset]
  rfl

omit [SlottedBus μ] in
theorem findEntry_mem {identifier : BitVec 38} {places : List PageIndex}
    {index : PageIndex} {entry : PageEntry}
    (found : ((unit.findEntry identifier places).perform memory).1 = some (index, entry)) :
    index ∈ places := by
  induction places with
  | nil => cases found
  | cons place rest ih =>
    change ((if _ then _ else _ : Activity (Option (PageIndex × PageEntry))).perform memory).1 = _
      at found
    split at found
    · cases found
      exact List.mem_cons_self
    split at found
    · exact List.mem_cons_of_mem _ (ih found)
    · cases found

theorem entrySlots_entry {asid : BitVec 16} {byteNumber : HalfWord} {lookup : PageLookup}
    (found : unit.pageAt memory asid byteNumber = some lookup) :
    unit.entrySlots memory (SlottedBus.slot memory lookup.entryAddress) := by
  obtain ⟨same, -, -, -⟩ := unit.pageAt_some found
  unfold pageAt findPage at found
  rw [Activity.perform_bind] at found
  obtain ⟨⟨index, entry⟩, matched, rfl⟩ := Option.map_eq_some_iff.mp found
  exact ⟨index, by rw [unit.mem_window (unit.findEntry_mem matched)]⟩

/-! ## Areas outside the tables -/

def Secludes (memory : μ) (count : Nat) (address : VirtualAddress) : Prop :=
  ∃ places, unit.areaPlaces memory count address = some places ∧
    ∀ place ∈ places, ¬ unit.tableSlots memory (SlottedBus.slot memory place)

/-- So many words from an address on are mapped, to bytes that exist, differ from each other, and
lie outside the tables. -/
def SetsApart (memory : μ) (count : Nat) (address : VirtualAddress) : Prop :=
  ∃ places, unit.areaPlaces memory count address = some places ∧
    Apart (unit.tableSlots memory) memory places

variable {unit}

omit [SlottedBus μ] in
theorem length_placesIn {pieces : List Nat} {address : VirtualAddress} {places : List Address}
    (mapped : unit.placesIn memory pieces address = some places) :
    places.length = pieces.sum := by
  induction pieces generalizing address places with
  | nil =>
    cases mapped
    rfl
  | cons count rest ih =>
    obtain ⟨real, -, found⟩ := Option.bind_eq_some_iff.mp mapped
    obtain ⟨others, tail, rfl⟩ := Option.map_eq_some_iff.mp found
    rw [List.length_append, length_run, ih tail, List.sum_cons]

omit [SlottedBus μ] in
theorem areaPlaces_succ {count : Nat} {address : VirtualAddress} {places : List Address}
    (mapped : unit.areaPlaces memory (count + 1) address = some places) :
    ∃ first rest, places = first ++ rest ∧ first.length = 8 ∧
      unit.placesIn memory (unit.pieces address.byteNumber 8) address = some first ∧
      unit.areaPlaces memory count (address.offset 8) = some rest := by
  obtain ⟨first, here, mapped⟩ := Option.bind_eq_some_iff.mp mapped
  obtain ⟨rest, others, rfl⟩ := Option.map_eq_some_iff.mp mapped
  exact ⟨first, rest, rfl, (length_placesIn here).trans (unit.sum_pieces _ _), here, others⟩

theorem wordsAt_succ {count : Nat} {address : VirtualAddress} {words : List Word}
    (stored : unit.wordsAt memory (count + 1) address = some words)
    (secluded : unit.Secludes memory (count + 1) address) :
    ∃ first rest, words = Word.ofBytes (first.map (byteAt memory)) :: rest ∧
      unit.placesIn memory (unit.pieces address.byteNumber 8) address = some first ∧
      (∀ place ∈ first, ¬ unit.tableSlots memory (SlottedBus.slot memory place)) ∧
      unit.wordsAt memory count (address.offset 8) = some rest ∧
      unit.Secludes memory count (address.offset 8) := by
  obtain ⟨places, mapped, outside⟩ := secluded
  rw [wordsAt, mapped] at stored
  obtain ⟨first, rest, rfl, length, here, others⟩ := areaPlaces_succ mapped
  rw [Option.map_some, Option.some.injEq, List.map_append,
    Activity.gathered_append _ (by rw [List.length_map, length])] at stored
  refine ⟨first, _, stored.symm, here, fun place member => ?_, by rw [wordsAt, others]; rfl, rest,
    others, fun place member => ?_⟩
  · exact outside place (List.mem_append_left _ member)
  · exact outside place (List.mem_append_right _ member)

/-- The number of a byte, when those of each slot are counted before those of the next. -/
def cellNumber (memory : μ) (place : Address) : Nat :=
  (cellAt memory place).elim 0 fun (slot, byte) => 8 * slot + byte

theorem apart_of_above {places : List Address} (bound : Nat)
    (segments : ∀ segment ≤ unit.segmentLimit.toNat,
      (SlottedBus.slot memory (unit.segmentEntryAddress segment)).any (· < bound) = true)
    (pages : ∀ index < unit.pageTableEntries,
      (SlottedBus.slot memory (unit.pageEntryAddress (BitVec.ofNat 32 index))).any (· < bound) =
        true)
    (above : places.all (fun place => (SlottedBus.slot memory place).any (bound ≤ ·)) = true)
    (ascending : (places.map (cellNumber memory)).IsChain (· < ·)) :
    Apart (unit.tableSlots memory) memory places := by
  have above := List.all_eq_true.mp above
  refine ⟨fun place member missing => ?_, fun place member within => ?_, ?_⟩
  · have found := above place member
    rw [missing] at found
    cases found
  · have high := above place member
    have low := unit.holds_of_tableSlots (fun slot => slot.any (· < bound) = true) segments pages
      within
    cases slot : SlottedBus.slot memory place with
    | none =>
      rw [slot] at high
      cases high
    | some slot =>
      simp only [slot, Option.any_some, decide_eq_true_eq] at high low
      omega
  · have ordered := List.pairwise_map.mp (List.isChain_iff_pairwise.mp ascending)
    refine List.pairwise_map.mpr (ordered.imp fun {place other} below same => ?_)
    unfold cellNumber at below
    rw [same] at below
    exact Nat.lt_irrefl _ below

theorem SetsApart.of_above {count : Nat} {address : VirtualAddress} {places : List Address}
    (bound : Nat) (mapped : unit.areaPlaces memory count address = some places)
    (segments : ∀ segment ≤ unit.segmentLimit.toNat,
      (SlottedBus.slot memory (unit.segmentEntryAddress segment)).any (· < bound) = true)
    (pages : ∀ index < unit.pageTableEntries,
      (SlottedBus.slot memory (unit.pageEntryAddress (BitVec.ofNat 32 index))).any (· < bound) =
        true)
    (above : places.all (fun place => (SlottedBus.slot memory place).any (bound ≤ ·)) = true)
    (ascending : (places.map (cellNumber memory)).IsChain (· < ·)) :
    unit.SetsApart memory count address :=
  ⟨places, mapped, apart_of_above bound segments pages above ascending⟩

theorem SetsApart.secludes {count : Nat} {address : VirtualAddress}
    (apart : unit.SetsApart memory count address) : unit.Secludes memory count address := by
  obtain ⟨places, mapped, apart⟩ := apart
  exact ⟨places, mapped, apart.outside⟩

end TranslationUnit

/-! ## What translations leave behind does not matter -/

namespace Processor.Resembles

variable [Bus μ] {processor left : Processor}

theorem placesIn_eq (alike : processor.Resembles left) (memory : μ) (pieces : List Nat)
    (address : VirtualAddress) :
    left.translation.placesIn memory pieces address =
      processor.translation.placesIn memory pieces address := by
  obtain ⟨untranslatable, privilege, rfl⟩ := alike
  have real (address : VirtualAddress) :
      (processor.tracing untranslatable privilege).translation.realAt memory address =
        processor.translation.realAt memory address := by
    unfold TranslationUnit.realAt
    rw [Processor.tracing]
    simp only [TranslationUnit.pageAt_tracing]
    rfl
  induction pieces generalizing address with
  | nil => rfl
  | cons count rest ih => rw [TranslationUnit.placesIn, TranslationUnit.placesIn, real, ih]

theorem areaPlaces_eq (alike : processor.Resembles left) (memory : μ) (count : Nat)
    (address : VirtualAddress) :
    left.translation.areaPlaces memory count address =
      processor.translation.areaPlaces memory count address := by
  induction count generalizing address with
  | zero => rfl
  | succ count ih =>
    have pieces : left.translation.pieces address.byteNumber 8 =
        processor.translation.pieces address.byteNumber 8 := by
      obtain ⟨_, _, rfl⟩ := alike
      rfl
    rw [TranslationUnit.areaPlaces, TranslationUnit.areaPlaces, ih, pieces, alike.placesIn_eq]

theorem tableSlots_eq [SlottedBus μ] (alike : processor.Resembles left) (memory : μ) :
    left.translation.tableSlots memory = processor.translation.tableSlots memory := by
  obtain ⟨_, _, rfl⟩ := alike
  rfl

theorem wordsAt_eq (alike : processor.Resembles left) (memory : μ) (count : Nat)
    (address : VirtualAddress) :
    left.translation.wordsAt memory count address =
      processor.translation.wordsAt memory count address := by
  rw [TranslationUnit.wordsAt, alike.areaPlaces_eq, TranslationUnit.wordsAt]

theorem secludes [SlottedBus μ] (alike : processor.Resembles left) {memory : μ} {count : Nat}
    {address : VirtualAddress} (secluded : processor.translation.Secludes memory count address) :
    left.translation.Secludes memory count address := by
  unfold TranslationUnit.Secludes
  rwa [alike.areaPlaces_eq, alike.tableSlots_eq]

theorem setsApart [SlottedBus μ] (alike : processor.Resembles left) {memory : μ} {count : Nat}
    {address : VirtualAddress} (apart : processor.translation.SetsApart memory count address) :
    left.translation.SetsApart memory count address := by
  unfold TranslationUnit.SetsApart
  rwa [alike.areaPlaces_eq, alike.tableSlots_eq]

end Processor.Resembles

namespace Keeps

variable [Bus μ] [SlottedBus μ] {unit : TranslationUnit} {memory kept : μ} {count : Nat}
  {address : VirtualAddress}

theorem outside {places fewer : List Address} (keeps : Keeps (unit.tableSlots memory) memory kept)
    (outside : ∀ place ∈ places, ¬ unit.tableSlots memory (SlottedBus.slot memory place))
    (within : ∀ place, place ∈ fewer → place ∈ places) :
    ∀ place ∈ fewer, ¬ unit.tableSlots kept (SlottedBus.slot kept place) := by
  intro place member
  rw [unit.tableSlots_congr keeps.slots, keeps.slots]
  exact outside place (within place member)

theorem apart {places : List Address} (keeps : Keeps (unit.tableSlots memory) memory kept)
    (apart : Apart (unit.tableSlots memory) memory places) :
    Apart (unit.tableSlots kept) kept places := by
  rw [unit.tableSlots_congr keeps.slots]
  exact apart.of_slots keeps.slots

theorem secludes (keeps : Keeps (unit.tableSlots memory) memory kept)
    (secluded : unit.Secludes memory count address) : unit.Secludes kept count address := by
  obtain ⟨places, mapped, outside⟩ := secluded
  exact ⟨places, by rwa [unit.areaPlaces_stored keeps], keeps.outside outside fun _ => id⟩

theorem setsApart (keeps : Keeps (unit.tableSlots memory) memory kept)
    (apart : unit.SetsApart memory count address) : unit.SetsApart kept count address := by
  obtain ⟨places, mapped, apart⟩ := apart
  exact ⟨places, by rwa [unit.areaPlaces_stored keeps], keeps.apart apart⟩

theorem wordsAt_eq (keeps : Keeps (unit.tableSlots memory) memory kept)
    (secluded : unit.Secludes memory count address) :
    unit.wordsAt kept count address = unit.wordsAt memory count address := by
  obtain ⟨places, mapped, outside⟩ := secluded
  unfold TranslationUnit.wordsAt
  rw [unit.areaPlaces_stored keeps, mapped, Option.map_some, Option.map_some,
    List.map_congr_left fun place member => keeps.byteAt_eq (outside place member)]

end Keeps

theorem Stored.wordsAt_eq [Bus μ] [SlottedBus μ] {unit : TranslationUnit} {memory kept : μ}
    {places : List Address} {words : List Word} {address : VirtualAddress}
    (stored : Stored (unit.tableSlots memory) memory places (words.flatMap Word.toBytes) kept)
    (mapped : unit.areaPlaces memory words.length address = some places) :
    unit.wordsAt kept words.length address = some words := by
  unfold TranslationUnit.wordsAt
  rw [unit.areaPlaces_stored stored, mapped, Option.map_some, stored.bytes,
    Activity.gathered_flatMap]

end Mainframe
