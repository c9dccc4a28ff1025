import Mainframe.Proofs.LockedUpdates
import Mainframe.Proofs.RoundTrips

/-! Bytes in virtual memory. A block is mapped in pieces of pages. Where the frames of these pages are
aligned, each of its bytes is where its own address is mapped. What is read of a block outside the
tables is what was in it, and what is stored in one that is set apart is there. -/

set_option autoImplicit false

namespace Mainframe

variable {μ : Type}

namespace TranslationUnit

theorem pieces_zero (unit : TranslationUnit) (byteNumber : HalfWord) :
    unit.pieces byteNumber 0 = [] := by
  simp [pieces]

/-! ## Pages with aligned frames -/

section

variable [Bus μ] (unit : TranslationUnit)

def lookupAt (memory : μ) (address : VirtualAddress) : Option PageLookup :=
  (unit.descriptorAt memory address.segment.toNat).bind fun descriptor =>
    unit.pageAt memory descriptor.asid address.byteNumber

/-- The pages of so many bytes, as far as they are mapped, have aligned frames. -/
def Framed (memory : μ) (count : Nat) (address : VirtualAddress) : Prop :=
  ∀ index < count, ∀ lookup ∈ unit.lookupAt memory (address.offset index),
    unit.FrameAligned lookup

variable {unit} {memory : μ} {address : VirtualAddress}

theorem realAt_eq_map (memory : μ) (address : VirtualAddress) :
    unit.realAt memory address = (unit.lookupAt memory address).map PageLookup.address := by
  unfold realAt lookupAt
  cases unit.descriptorAt memory address.segment.toNat <;> rfl

theorem Framed.offset {first count : Nat} (framed : unit.Framed memory (first + count) address) :
    unit.Framed memory count (address.offset first) := by
  intro index inside
  rw [VirtualAddress.offset_offset, ← Nat.cast_add]
  exact framed (first + index) (by omega)

theorem Framed.mono {count fewer : Nat} (framed : unit.Framed memory count address)
    (fewer_le : fewer ≤ count) : unit.Framed memory fewer address :=
  fun index inside => framed index (by omega)

/-- A search for an address finds the entry of its page, wherever in the page the address is. -/
theorem pageAt_congr {asid : BitVec 16} {byteNumber other : HalfWord}
    (page : unit.pageOf other = unit.pageOf byteNumber) :
    unit.pageAt memory asid other = (unit.pageAt memory asid byteNumber).map fun lookup =>
      { lookup with
        address := lookup.entry.frameAddress ||| (other &&& unit.offsetMask).setWidth 64 } := by
  unfold pageAt findPage
  rw [Activity.perform_bind, Activity.perform_bind, Activity.perform_pure, Activity.perform_pure,
    page, Option.map_map]
  rfl

theorem realAt_offset {real : Address} (mapped : unit.realAt memory address = some real)
    (framed : unit.Framed memory 1 address) {distance : Nat}
    (inside : distance < unit.pageRemaining address.byteNumber) :
    unit.realAt memory (address.offset distance) = some (real + BitVec.ofNat 64 distance) := by
  obtain ⟨-, page, offset⟩ := unit.offset_below
    (Nat.dvd_trans unit.pageSize_dvd (by decide)) (Nat.le_refl _) address.byteNumber.isLt inside
  rw [realAt_eq_map, Option.map_eq_some_iff] at mapped
  obtain ⟨lookup, found, rfl⟩ := mapped
  -- Both addresses are in the page that was found, and its frame begins at a multiple of its size.
  have aligned : unit.FrameAligned lookup := framed 0 Nat.one_pos lookup (by simpa using found)
  obtain ⟨descriptor, segment, found⟩ := Option.bind_eq_some_iff.mp found
  obtain ⟨-, -, -, place⟩ := unit.pageAt_some found
  have first := unit.toNat_pageAddress aligned address.byteNumber
  have there := unit.toNat_pageAddress aligned (address.offset distance).byteNumber
  rw [offset] at there
  rw [realAt_eq_map, lookupAt, show (address.offset distance).segment = address.segment from rfl,
    segment, Option.bind_some, pageAt_congr page, found, Option.map_some, Option.map_some]
  refine congrArg some (BitVec.eq_of_toNat_eq ?_)
  have bounded := BitVec.isLt (lookup.entry.frameAddress |||
    ((address.offset distance).byteNumber &&& unit.offsetMask).setWidth 64)
  rw [there] at bounded
  rw [there, place, BitVec.toNat_add, first, BitVec.toNat_ofNat]
  omega

end

/-! ## Blocks -/

section

variable [Bus μ] (unit : TranslationUnit) (memory : μ)

def bytesIn (pieces : List Nat) (address : VirtualAddress) : Option (List Byte) :=
  (unit.placesIn memory pieces address).map fun places => places.map (byteAt memory)

/-- The bytes of a block, of which each page is mapped once. -/
def blockAt (count : Nat) (address : VirtualAddress) : Option (List Byte) :=
  unit.bytesIn memory (unit.pieces address.byteNumber count) address

/-- The bytes at so many addresses, each of which is mapped on its own. -/
def bytesAt (count : Nat) (address : VirtualAddress) : Option (List Byte) :=
  unit.bytesIn memory (List.replicate count 1) address

def SecludesBlock [SlottedBus μ] (count : Nat) (address : VirtualAddress) : Prop :=
  ∃ places, unit.placesIn memory (unit.pieces address.byteNumber count) address = some places ∧
    ∀ place ∈ places, ¬ unit.tableSlots memory (SlottedBus.slot memory place)

/-- A block is mapped, to bytes that exist, differ from each other, and lie outside the tables. -/
def SetsBlockApart [SlottedBus μ] (count : Nat) (address : VirtualAddress) : Prop :=
  ∃ places, unit.placesIn memory (unit.pieces address.byteNumber count) address = some places ∧
    Apart (unit.tableSlots memory) memory places

variable {unit memory} {address : VirtualAddress} {pieces : List Nat}

theorem length_bytesIn {bytes : List Byte}
    (holds : unit.bytesIn memory pieces address = some bytes) : bytes.length = pieces.sum := by
  obtain ⟨places, mapped, rfl⟩ := Option.map_eq_some_iff.mp holds
  rw [List.length_map, length_placesIn mapped]

theorem length_blockAt {count : Nat} {bytes : List Byte}
    (holds : unit.blockAt memory count address = some bytes) : bytes.length = count :=
  (length_bytesIn holds).trans (unit.sum_pieces _ _)

theorem placesIn_append (pieces more : List Nat) (address : VirtualAddress) :
    unit.placesIn memory (pieces ++ more) address =
      (unit.placesIn memory pieces address).bind fun first =>
        (unit.placesIn memory more (address.offset pieces.sum)).map (first ++ ·) := by
  induction pieces generalizing address with
  | nil => simp [placesIn]
  | cons count rest ih =>
    have next : (address.offset count).offset rest.sum = address.offset (count :: rest).sum := by
      rw [VirtualAddress.offset_offset, List.sum_cons, Nat.cast_add]
    rw [List.cons_append, placesIn, ih, next, placesIn]
    simp only [Option.bind_assoc, Option.bind_map, Option.map_bind, Option.map_map,
      Function.comp_def, List.append_assoc]

theorem placesIn_run {count : Nat} {real : Address}
    (mapped : ∀ distance < count,
      unit.realAt memory (address.offset distance) = some (real + BitVec.ofNat 64 distance)) :
    unit.placesIn memory (List.replicate count 1) address = some (run count real) := by
  induction count generalizing address real with
  | zero => rfl
  | succ count ih =>
    have here := mapped 0 (Nat.succ_pos count)
    rw [Nat.cast_zero, VirtualAddress.offset_zero, BitVec.add_zero] at here
    have others : ∀ distance < count, unit.realAt memory ((address.offset 1).offset distance) =
        some (real + 1 + BitVec.ofNat 64 distance) := by
      intro distance inside
      have found := mapped (1 + distance) (by omega)
      rw [BitVec.ofNat_add, ← BitVec.add_assoc] at found
      rw [VirtualAddress.offset_offset]
      exact found
    rw [List.replicate_succ, placesIn, here, Option.bind_some, Nat.cast_one, ih others]
    rfl

/-- In aligned frames it makes no difference whether pages or bytes are mapped one by one. -/
theorem placesIn_singly (fit : unit.FitPages address pieces)
    (some : ∀ piece ∈ pieces, piece ≠ 0) (framed : unit.Framed memory pieces.sum address) :
    unit.placesIn memory pieces address =
      unit.placesIn memory (List.replicate pieces.sum 1) address := by
  induction pieces generalizing address with
  | nil => rfl
  | cons count rest ih =>
    obtain ⟨here, after⟩ := fit
    have positive : 0 < count := Nat.pos_of_ne_zero (some count List.mem_cons_self)
    rw [List.sum_cons] at framed ⊢
    rw [← List.replicate_append_replicate, placesIn_append, placesIn, List.sum_replicate_nat,
      Nat.mul_one, ih after (fun piece member => some piece (List.mem_cons_of_mem _ member))
        framed.offset]
    cases mapped : unit.realAt memory address with
    | none =>
      obtain ⟨fewer, rfl⟩ := Nat.exists_eq_succ_of_ne_zero positive.ne'
      rw [List.replicate_succ, placesIn, mapped]
      rfl
    | some real =>
      rw [placesIn_run fun distance inside => realAt_offset mapped (framed.mono (by omega))
        (Nat.lt_of_lt_of_le inside here)]
      rfl

theorem placesIn_block {count : Nat} (framed : unit.Framed memory count address) :
    unit.placesIn memory (unit.pieces address.byteNumber count) address =
      unit.placesIn memory (List.replicate count 1) address := by
  have framed : unit.Framed memory (unit.pieces address.byteNumber count).sum address := by
    rwa [unit.sum_pieces]
  have singly := placesIn_singly (unit.fitPages_pieces address count) (unit.pieces_ne_zero _ _) framed
  rwa [unit.sum_pieces] at singly

theorem blockAt_eq_bytesAt {count : Nat} (framed : unit.Framed memory count address) :
    unit.blockAt memory count address = unit.bytesAt memory count address := by
  rw [blockAt, bytesAt, bytesIn, placesIn_block framed, bytesIn]

theorem SetsBlockApart.secludes [SlottedBus μ] {count : Nat}
    (apart : unit.SetsBlockApart memory count address) :
    unit.SecludesBlock memory count address := by
  obtain ⟨places, mapped, apart⟩ := apart
  exact ⟨places, mapped, apart.outside⟩

end

end TranslationUnit

/-! ## What leaves a block alone -/

section

variable [Bus μ] {unit : TranslationUnit} {memory kept : μ} {pieces : List Nat} {count : Nat}
  {address : VirtualAddress} {places : List Address}

theorem Processor.Resembles.bytesIn_eq {processor left : Processor}
    (alike : processor.Resembles left) (memory : μ) (pieces : List Nat)
    (address : VirtualAddress) :
    left.translation.bytesIn memory pieces address =
      processor.translation.bytesIn memory pieces address := by
  rw [TranslationUnit.bytesIn, alike.placesIn_eq, TranslationUnit.bytesIn]

theorem Processor.Resembles.pieces_eq {processor left : Processor}
    (alike : processor.Resembles left) : left.translation.pieces = processor.translation.pieces := by
  obtain ⟨_, _, rfl⟩ := alike
  rfl

variable [SlottedBus μ]

theorem Keeps.bytesIn_eq (keeps : Keeps (unit.tableSlots memory) memory kept)
    (mapped : unit.placesIn memory pieces address = some places)
    (outside : ∀ place ∈ places, ¬ unit.tableSlots memory (SlottedBus.slot memory place)) :
    unit.bytesIn kept pieces address = unit.bytesIn memory pieces address := by
  unfold TranslationUnit.bytesIn
  rw [unit.placesIn_stored keeps, mapped, Option.map_some, Option.map_some,
    List.map_congr_left fun place member => keeps.byteAt_eq (outside place member)]

theorem Keeps.inTables (keeps : Keeps (unit.entrySlots memory) memory kept) :
    Keeps (unit.tableSlots memory) memory kept :=
  keeps.widen fun _ => unit.tableSlots_of_entrySlots

theorem Keeps.then_marks {middle : μ} (keeps : Keeps (unit.entrySlots memory) memory middle)
    (marks : Keeps (unit.entrySlots middle) middle kept) :
    Keeps (unit.entrySlots memory) memory kept := by
  rw [unit.entrySlots_congr keeps.slots] at marks
  exact keeps.trans marks

theorem Keeps.stored {middle : μ} {bytes : List Byte}
    (keeps : Keeps (unit.entrySlots memory) memory middle)
    (apart : Apart (unit.tableSlots memory) memory places)
    (stored : Stored (unit.entrySlots middle) middle places bytes kept) :
    Stored (unit.entrySlots memory) memory places bytes kept := by
  rw [unit.entrySlots_congr keeps.slots] at stored
  exact keeps.then_stored (apart.narrow fun _ => unit.tableSlots_of_entrySlots) stored

theorem Keeps.blockAt_eq (keeps : Keeps (unit.entrySlots memory) memory kept)
    (secluded : unit.SecludesBlock memory count address) :
    unit.blockAt kept count address = unit.blockAt memory count address := by
  obtain ⟨places, mapped, outside⟩ := secluded
  exact keeps.inTables.bytesIn_eq mapped outside

theorem Keeps.secludesBlock (keeps : Keeps (unit.entrySlots memory) memory kept)
    (secluded : unit.SecludesBlock memory count address) :
    unit.SecludesBlock kept count address := by
  obtain ⟨places, mapped, outside⟩ := secluded
  exact ⟨places, by rwa [unit.placesIn_stored keeps.inTables],
    keeps.inTables.outside outside fun _ => id⟩

theorem Stored.bytesAt_eq {bytes : List Byte}
    (stored : Stored (unit.tableSlots memory) memory places bytes kept)
    (mapped : unit.placesIn memory (unit.pieces address.byteNumber count) address = some places)
    (framed : unit.Framed memory count address) : unit.bytesAt kept count address = some bytes := by
  rw [TranslationUnit.bytesAt, TranslationUnit.bytesIn, unit.placesIn_stored stored,
    ← TranslationUnit.placesIn_block framed, mapped, Option.map_some, stored.bytes]

end

namespace Execution

variable {α : Type} [Bus μ] [SlottedBus μ] {processor : Processor} {memory : μ}

/-! ## Fetching -/

theorem fetchInstruction_keeps :
    fetchInstruction.Orderly processor memory fun _ left kept =>
      processor.Resembles left ∧ Keeps (processor.translation.entrySlots memory) memory kept := by
  refine fetchInstruction_leaves
    (fun processor memory kept => Keeps (processor.translation.entrySlots memory) memory kept)
    (translate_keeps _ _) fun alike keeps more => ?_
  obtain ⟨_, _, rfl⟩ := alike
  exact keeps.then_marks more

/-! ## Reading -/

variable (processor memory) in
/-- Reading leaves nothing in memory but marks, even where it fails. -/
theorem readPieces_keeps (pieces : List Nat) (address : VirtualAddress) :
    Keeps (processor.translation.entrySlots memory) memory
      ((readPieces pieces address).ending processor memory).2 := by
  induction pieces generalizing address memory with
  | nil => exact .refl
  | cons count rest ih =>
    rw [readPieces, ending_bind]
    rcases translated : (translate address .forRead).ending processor memory with
      ⟨⟨condition | real, left⟩, between⟩
    · rcases translate_cases processor address .forRead memory with
        ⟨fault, failed, -⟩ | ⟨descriptor, lookup, -, found, -, -⟩
      · -- A translation that fails has written nothing.
        rw [translated] at failed
        cases failed
        exact .refl
      · rw [translated] at found
        cases found
    · obtain ⟨rfl, -⟩ := (translate_inspects processor memory address rfl).completed translated
      have marks := translate_keeps _ _ translated
      have after := ih between (address.offset count)
      dsimp only
      rw [ending_bind, ending_liftM, (Activity.readBytes_reads count real).perform_memory]
      dsimp only
      rw [ending_bind]
      rcases reading : (readPieces rest (address.offset count)).ending left between with
        ⟨⟨_ | more, later⟩, last⟩ <;> rw [reading] at after <;> exact marks.then_marks after

variable (processor memory) in
theorem readVirtual_keeps (address : VirtualAddress) (count : Nat) :
    Keeps (processor.translation.entrySlots memory) memory
      ((readVirtual address count).ending processor memory).2 := by
  rw [readVirtual, ending, course_get]
  exact readPieces_keeps _ _ _ _

theorem length_readPieces {pieces : List Nat} {address : VirtualAddress} {bytes : List Byte}
    {left : Processor} {last : μ}
    (ended : (readPieces pieces address).ending processor memory = ((.ok bytes, left), last)) :
    bytes.length = pieces.sum := by
  induction pieces generalizing address bytes memory with
  | nil =>
    cases ended
    rfl
  | cons count rest ih =>
    obtain ⟨real, between, -, reading⟩ :=
      (translate_inspects processor memory address rfl).of_bind_ok ended
    rw [ending_bind, ending_liftM, Activity.perform_readBytes] at reading
    obtain ⟨more, later, found, joined⟩ := (readPieces_inspects _ _ _ _).of_bind_ok reading
    cases joined
    rw [List.length_append, List.length_map, length_run, ih found, List.sum_cons]

theorem length_readVirtual {address : VirtualAddress} {count : Nat} {bytes : List Byte}
    {left : Processor} {last : μ}
    (ended : (readVirtual address count).ending processor memory = ((.ok bytes, left), last)) :
    bytes.length = count := by
  rw [readVirtual, ending, course_get] at ended
  rw [length_readPieces ended, processor.translation.sum_pieces]

/-- An execution that begins by reading a block outside the tables goes on with the bytes of it. -/
theorem readVirtual_then {continuation : List Byte → Execution α} {count : Nat}
    {address : VirtualAddress} {result : α} {left : Processor} {last : μ}
    (secluded : processor.translation.SecludesBlock memory count address)
    (ended : (readVirtual address count >>= continuation).ending processor memory =
      ((.ok result, left), last)) :
    ∃ bytes kept, processor.translation.blockAt memory count address = some bytes ∧
      Keeps (processor.translation.entrySlots memory) memory kept ∧
      (continuation bytes).ending processor kept = ((.ok result, left), last) := by
  obtain ⟨places, mapped, outside⟩ := secluded
  obtain ⟨bytes, kept, reading, rest⟩ := (readVirtual_inspects _ _ _ _).of_bind_ok ended
  have keeps := readVirtual_keeps processor memory address count
  rw [reading] at keeps
  rw [readVirtual, ending, course_get] at reading
  have found := readPieces_bytes mapped outside reading
  refine ⟨bytes, kept, ?_, keeps, rest⟩
  rw [TranslationUnit.blockAt, TranslationUnit.bytesIn, mapped, Option.map_some, ← found]

theorem writeVirtual_exact {bytes : List Byte} {count : Nat} {address : VirtualAddress}
    {places : List Address} {left : Processor} {last : μ} (length : bytes.length = count)
    (mapped : processor.translation.placesIn memory
      (processor.translation.pieces address.byteNumber count) address = some places)
    (apart : Apart (processor.translation.tableSlots memory) memory places)
    (ended : (writeVirtual address bytes).ending processor memory = ((.ok (), left), last)) :
    left = processor ∧
      Stored (processor.translation.entrySlots memory) memory places bytes last := by
  subst length
  have stores := (writeVirtual_stores processor memory address bytes).completed ended
  rw [writeVirtual, ending, course_get] at ended
  exact ⟨stores, writePieces_exact mapped apart (processor.translation.sum_pieces _ _).symm ended⟩

end Execution

/-! ## Steps -/

theorem Runs.keeps [Bus μ] [SlottedBus μ] {before running : Processor} {memory middle : μ}
    {instruction : Instruction} (runs : Runs before memory instruction running middle) :
    Keeps (before.translation.entrySlots memory) memory middle := by
  obtain ⟨fetched, fetching, rfl⟩ := runs
  have fetch : Execution.fetchInstruction.Orderly before.beginInstruction memory _ :=
    Execution.fetchInstruction_keeps
  exact (fetch.completed fetching).2

section

variable [Bus μ] [SlottedBus μ] {before running : Processor} {memory middle kept : μ}
  {instruction : Instruction} {count : Nat} {address : VirtualAddress}

theorem Runs.alike (runs : Runs before memory instruction running middle) :
    ∃ left : Processor, before.Resembles left ∧ running.translation = left.translation := by
  obtain ⟨untranslatable, privilege, rfl, -⟩ := runs.prepared
  exact ⟨before.tracing untranslatable privilege, ⟨_, _, rfl⟩, rfl⟩

theorem Runs.blockAt_eq (runs : Runs before memory instruction running middle)
    (secluded : before.translation.SecludesBlock memory count address) :
    running.translation.blockAt middle count address =
      before.translation.blockAt memory count address := by
  obtain ⟨left, alike, same⟩ := runs.alike
  rw [same, TranslationUnit.blockAt, alike.pieces_eq, alike.bytesIn_eq]
  exact runs.keeps.blockAt_eq secluded

theorem Runs.secludesBlock (runs : Runs before memory instruction running middle)
    (secluded : before.translation.SecludesBlock memory count address) :
    running.translation.SecludesBlock middle count address := by
  obtain ⟨left, alike, same⟩ := runs.alike
  obtain ⟨places, mapped, outside⟩ := runs.keeps.secludesBlock secluded
  refine ⟨places, ?_, ?_⟩
  · rw [same, alike.pieces_eq, alike.placesIn_eq, mapped]
  · rwa [same, alike.tableSlots_eq]

variable {places : List Address} {bytes : List Byte}

theorem Runs.placesIn_eq (runs : Runs before memory instruction running middle) :
    running.translation.placesIn middle (running.translation.pieces address.byteNumber count)
        address =
      before.translation.placesIn memory (before.translation.pieces address.byteNumber count)
        address := by
  obtain ⟨left, alike, same⟩ := runs.alike
  rw [same, alike.pieces_eq, alike.placesIn_eq, before.translation.placesIn_stored runs.keeps.inTables]

theorem Runs.apart (runs : Runs before memory instruction running middle)
    (apart : Apart (before.translation.tableSlots memory) memory places) :
    Apart (running.translation.tableSlots middle) middle places := by
  obtain ⟨left, alike, same⟩ := runs.alike
  rw [same, alike.tableSlots_eq]
  exact runs.keeps.inTables.apart apart

theorem Runs.entrySlots_eq (runs : Runs before memory instruction running middle) :
    running.translation.entrySlots middle = before.translation.entrySlots memory := by
  rw [← before.translation.entrySlots_congr runs.keeps.slots]
  obtain ⟨_, _, rfl, -⟩ := runs.prepared
  rfl

theorem Runs.stored (runs : Runs before memory instruction running middle)
    (apart : Apart (before.translation.tableSlots memory) memory places)
    (stored : Stored (running.translation.entrySlots middle) middle places bytes kept) :
    Stored (before.translation.entrySlots memory) memory places bytes kept := by
  rw [runs.entrySlots_eq] at stored
  exact runs.keeps.then_stored
    (apart.narrow fun _ => before.translation.tableSlots_of_entrySlots) stored

end

end Mainframe
