import Mainframe.Proofs.PageSearch

/-! The rules of address translation, apart from the way in which it is carried out. They say of
every access which fault it meets, or to which real address it goes and what it leaves behind, and
translations keep to them. -/

set_option autoImplicit false

namespace Mainframe

variable {μ : Type}

/-! ## Rights -/

/-- Key zero and lock zero match everything. -/
def Matches (lock key : Byte) : Prop := key = 0 ∨ lock = 0 ∨ key = lock

def Protection.Admits (level : Protection) (lock key : Byte) : Prop :=
  level = .unlocked ∨ level = .binding ∨ level = .keyLock ∧ Matches lock key

/-- Every requested mode is allowed at the ring with the key. -/
structure SegmentDescriptor.Allows (descriptor : SegmentDescriptor) (modes : AccessModes)
    (ring : Ring) (key : Byte) : Prop where
  execute : modes.execute = true → descriptor.execute ≠ .nonExecutable ∧
    descriptor.r1.toNat ≤ ring.toNat ∧ ring.toNat ≤ descriptor.r2.toNat ∧
    Matches descriptor.lock key
  read : modes.read = true →
    ring.toNat ≤ descriptor.r2.toNat ∧ descriptor.read.Admits descriptor.lock key
  write : modes.write = true →
    ring.toNat ≤ descriptor.r1.toNat ∧ descriptor.write.Admits descriptor.lock key

namespace SegmentDescriptor

variable {descriptor : SegmentDescriptor} {modes : AccessModes} {ring : Ring} {key : Byte}

theorem keyMatches_iff : descriptor.keyMatches key = true ↔ Matches descriptor.lock key := by
  simp [keyMatches, Matches, or_assoc]

theorem permits_iff {level : Protection} :
    level.permits (descriptor.keyMatches key) = true ↔ level.Admits descriptor.lock key := by
  cases level <;> simp [Protection.permits, Protection.Admits, keyMatches_iff]

theorem grants_iff : descriptor.grants modes ring key = true ↔ descriptor.Allows modes ring key := by
  have requested (mode granted : Bool) : (!mode || granted) = true ↔ (mode = true → granted = true) := by
    cases mode <;> simp
  rw [grants, Bool.and_eq_true, Bool.and_eq_true, requested, requested, requested]
  simp only [canExecute, canRead, canWrite, Bool.and_eq_true, decide_eq_true_eq, permits_iff,
    keyMatches_iff, bne_iff_ne, and_assoc]
  exact ⟨fun ⟨execute, read, write⟩ => ⟨execute, read, write⟩,
    fun ⟨execute, read, write⟩ => ⟨execute, read, write⟩⟩

end SegmentDescriptor

namespace TranslationUnit

variable (unit : TranslationUnit)

/-! ## Pages -/

theorem toNat_pageOf (byteNumber : HalfWord) :
    (unit.pageOf byteNumber).toNat = byteNumber.toNat / unit.pageSize := by
  rw [pageOf, BitVec.toNat_ushiftRight, Nat.shiftRight_eq_div_pow, pageSize_eq]

theorem toNat_pageOf_lt {byteNumber : HalfWord} (below : byteNumber.toNat < 2 ^ 31) :
    (unit.pageOf byteNumber).toNat < 2 ^ 22 := by
  have size : 2 ^ 9 ≤ unit.pageSize := by
    rw [pageSize_eq]
    exact Nat.pow_le_pow_right (by decide) (show 9 ≤ unit.pageShift by unfold pageShift; omega)
  rw [toNat_pageOf]
  exact Nat.lt_of_le_of_lt (Nat.div_le_div_left size (by decide)) (by omega)

/-- A rule by which searches go through the page table: the place at which a search for a page
looks with its probe of a number. -/
abbrev SearchOrder := BitVec 16 → HalfWord → Nat → PageIndex

section

variable [Bus μ]

def descriptorOf (memory : μ) (address : VirtualAddress) : SegmentDescriptor :=
  .ofWord (Bus.readWord memory (unit.segmentEntryAddress address.segment.toNat))

def LacksSegment (memory : μ) (address : VirtualAddress) : Prop :=
  address.ring = 0 ∨ unit.segmentLimit.toNat < address.segment.toNat ∨
    (unit.descriptorOf memory address).valid = false

/-- The search for a page ends with its entry at this place: it is that of one of 32 probes, and
the entries before it all continue and are of other pages. -/
def Finds (order : SearchOrder) (memory : μ) (asid : BitVec 16) (page : HalfWord)
    (index : PageIndex) : Prop :=
  ∃ probe < 32,
    (∀ earlier < probe, (unit.entryAt memory (order asid page earlier)).continues = true ∧
      ¬ (unit.entryAt memory (order asid page earlier)).Carries (pageIdentifier asid page)) ∧
    (unit.entryAt memory (order asid page probe)).Carries (pageIdentifier asid page) ∧
    index = order asid page probe

/-- The memory after an access of the page at a place, whose entry is used and, after a write,
modified. It is not written where that holds already. -/
def marked (memory : μ) (index : PageIndex) (modes : AccessModes) : μ :=
  let word := Bus.readWord memory (unit.pageEntryAddress index)
  if word ||| PageEntry.marks modes = word then memory
  else Bus.writeWord memory (unit.pageEntryAddress index) (word ||| PageEntry.marks modes)

def faulted (address : VirtualAddress) : TranslationUnit := { unit with untranslatable := address }

def accessed (modes : AccessModes) (privilege : ExecutePrivilege) : TranslationUnit :=
  if modes.execute then { unit with executePrivilege := privilege } else unit

/-- What the rules prescribe for an access to an address: its outcome, and the registers and the
memory that it leaves. Each fault comes before those below it. -/
inductive Prescribes (order : SearchOrder) (memory : μ) (address : VirtualAddress)
    (modes : AccessModes) (key : Byte) :
    (Except TranslationFault Address × TranslationUnit) × μ → Prop where
  | addressSpecification (beyond : 2 ^ 31 ≤ address.byteNumber.toNat) :
      Prescribes order memory address modes key
        ((.error ⟨.addressSpecification, address⟩, unit.faulted address), memory)
  | invalidSegment (below : address.byteNumber.toNat < 2 ^ 31)
      (lacks : unit.LacksSegment memory address) :
      Prescribes order memory address modes key
        ((.error ⟨.invalidSegment, address⟩, unit.faulted address), memory)
  | accessViolation (below : address.byteNumber.toNat < 2 ^ 31)
      (named : ¬ unit.LacksSegment memory address)
      (refused : ¬ (unit.descriptorOf memory address).Allows modes address.ring key) :
      Prescribes order memory address modes key
        ((.error ⟨.accessViolation, address⟩, unit.faulted address), memory)
  | pageFault (below : address.byteNumber.toNat < 2 ^ 31)
      (named : ¬ unit.LacksSegment memory address)
      (allowed : (unit.descriptorOf memory address).Allows modes address.ring key)
      (missing : ∀ index, ¬ unit.Finds order memory (unit.descriptorOf memory address).asid
        (unit.pageOf address.byteNumber) index) :
      Prescribes order memory address modes key
        ((.error ⟨.pageFault, address⟩, unit.faulted address), memory)
  | success (below : address.byteNumber.toNat < 2 ^ 31)
      (named : ¬ unit.LacksSegment memory address)
      (allowed : (unit.descriptorOf memory address).Allows modes address.ring key)
      (index : PageIndex)
      (found : unit.Finds order memory (unit.descriptorOf memory address).asid
        (unit.pageOf address.byteNumber) index) :
      Prescribes order memory address modes key
        ((.ok ((unit.entryAt memory index).frameAddress |||
            BitVec.ofNat 64 (address.byteNumber.toNat % unit.pageSize)),
          unit.accessed modes (unit.descriptorOf memory address).execute),
        unit.marked memory index modes)

variable {unit} {order : SearchOrder} {memory : μ}

theorem Finds.unique {asid : BitVec 16} {page : HalfWord} {index other : PageIndex}
    (finds : unit.Finds order memory asid page index)
    (again : unit.Finds order memory asid page other) : index = other := by
  obtain ⟨probe, -, passes, carries, rfl⟩ := finds
  obtain ⟨second, -, goesOn, other, rfl⟩ := again
  rcases Nat.lt_trichotomy probe second with before | same | after
  · exact ((goesOn probe before).2 carries).elim
  · rw [same]
  · exact ((passes second after).2 other).elim

/-- The rules leave nothing open. -/
theorem Prescribes.unique {address : VirtualAddress} {modes : AccessModes} {key : Byte}
    {result other : (Except TranslationFault Address × TranslationUnit) × μ}
    (prescribed : unit.Prescribes order memory address modes key result)
    (again : unit.Prescribes order memory address modes key other) : result = other := by
  cases prescribed with
  | addressSpecification beyond => cases again <;> first | rfl | omega
  | invalidSegment below lacks => cases again <;> first | rfl | contradiction | omega
  | accessViolation below named refused => cases again <;> first | rfl | contradiction | omega
  | pageFault below named allowed missing =>
    cases again with
    | success _ _ _ index found => exact (missing index found).elim
    | _ => first | rfl | contradiction | omega
  | success below named allowed index found =>
    cases again with
    | pageFault _ _ _ missing => exact (missing index found).elim
    | success _ _ _ other again => rw [found.unique again]
    | _ => first | contradiction | omega

/-! ## Translations keep to the rules -/

theorem entryOf_eq_some_iff {asid : BitVec 16} {page : HalfWord} {index : PageIndex}
    {entry : PageEntry} :
    unit.entryOf memory asid page = some (index, entry) ↔
      unit.Finds unit.probedPlace memory asid page index ∧ entry = unit.entryAt memory index := by
  unfold entryOf Finds
  rw [findEntry_eq_some_iff, window_eq, List.range_eq_range']
  constructor
  · rintro ⟨before, after, split, goesOn, carries, rfl⟩
    -- The places before the entry are those of the earlier probes.
    obtain ⟨earlier, rest, range, rfl, here⟩ := List.map_eq_append_iff.mp split
    obtain ⟨probe, -, rfl, rfl⟩ := List.range'_eq_append_iff.mp range
    obtain ⟨first, _, later, rfl, -⟩ := List.map_eq_cons_iff.mp here
    obtain ⟨rfl, more, -⟩ := List.range'_eq_cons_iff.mp later
    rw [Nat.zero_add, Nat.mul_one] at carries ⊢
    refine ⟨⟨probe, Nat.lt_of_sub_pos more, fun earlier inside => ?_, carries, rfl⟩, rfl⟩
    exact goesOn _ (List.mem_map_of_mem (by simpa using inside))
  · rintro ⟨⟨probe, within, passes, carries, rfl⟩, rfl⟩
    have range : List.range' 0 longestSearch =
        List.range' 0 probe ++ probe :: List.range' (probe + 1) (longestSearch - probe - 1) := by
      refine List.range'_eq_append_iff.mpr ⟨probe, Nat.le_of_lt within, rfl, ?_⟩
      rw [Nat.zero_add, Nat.mul_one]
      exact (List.range'_eq_cons_iff.mpr ⟨rfl, Nat.sub_pos_of_lt within, rfl⟩).symm
    refine ⟨_, _, by rw [range, List.map_append, List.map_cons], fun place member => ?_, carries, rfl⟩
    obtain ⟨earlier, inside, rfl⟩ := List.mem_map.mp member
    exact passes earlier (by simpa using inside)

theorem resolveSegment_cases (unit : TranslationUnit) (memory : μ) (address : VirtualAddress) :
    (2 ^ 31 ≤ address.byteNumber.toNat ∧ ((unit.resolveSegment address).perform memory).1 =
      .error ⟨.addressSpecification, address⟩) ∨
    (address.byteNumber.toNat < 2 ^ 31 ∧ unit.LacksSegment memory address ∧
      ((unit.resolveSegment address).perform memory).1 = .error ⟨.invalidSegment, address⟩) ∨
    (address.byteNumber.toNat < 2 ^ 31 ∧ ¬ unit.LacksSegment memory address ∧
      ((unit.resolveSegment address).perform memory).1 =
        .ok (unit.descriptorOf memory address)) := by
  unfold resolveSegment LacksSegment
  split
  · next negative => exact .inl ⟨by simpa [BitVec.msb_eq_decide] using negative, rfl⟩
  next positive =>
  have below : address.byteNumber.toNat < 2 ^ 31 := by
    simpa [BitVec.msb_eq_decide] using positive
  right
  split
  · next zero => exact .inl ⟨below, .inl zero, rfl⟩
  next ring =>
  unfold segmentDescriptor
  split
  · next beyond => exact .inl ⟨below, .inr (.inl beyond), rfl⟩
  next within =>
  change (_ ∧ _ ∧ (Activity.perform (if (unit.descriptorOf memory address).valid then _ else _)
    memory).1 = _) ∨ _ ∧ _ ∧ (Activity.perform (if (unit.descriptorOf memory address).valid then _
      else _) memory).1 = _
  split
  · next valid =>
    refine .inr ⟨below, ?_, rfl⟩
    rintro (zero | beyond | invalid)
    · exact ring zero
    · exact within beyond
    · rw [valid] at invalid
      cases invalid
  · next invalid => exact .inl ⟨below, .inr (.inr (by simpa using invalid)), rfl⟩

theorem pageAt_eq (unit : TranslationUnit) (memory : μ) (asid : BitVec 16) (byteNumber : HalfWord) :
    unit.pageAt memory asid byteNumber =
      (unit.entryOf memory asid (unit.pageOf byteNumber)).map fun (index, entry) => {
        index
        entryAddress := unit.pageEntryAddress index
        entry
        address := entry.frameAddress ||| (byteNumber &&& unit.offsetMask).setWidth 64 } := by
  unfold pageAt findPage entryOf
  rw [Activity.perform_bind, Activity.perform_pure]

theorem setWidth_offset (unit : TranslationUnit) (byteNumber : HalfWord) :
    (byteNumber &&& unit.offsetMask).setWidth 64 =
      BitVec.ofNat 64 (byteNumber.toNat % unit.pageSize) := by
  rw [← toNat_and_offsetMask, BitVec.ofNat_toNat]

theorem perform_mark (unit : TranslationUnit) (memory : μ) (index : PageIndex)
    (modes : AccessModes) (address : Address) :
    ((PageLookup.mark ⟨index, unit.pageEntryAddress index, unit.entryAt memory index, address⟩
      modes).perform memory).2 = unit.marked memory index modes := by
  have written := PageEntry.toWord_touched (Bus.readWord memory (unit.pageEntryAddress index)) modes
  unfold PageLookup.mark marked entryAt
  dsimp only
  by_cases same : Bus.readWord memory (unit.pageEntryAddress index) ||| PageEntry.marks modes =
      Bus.readWord memory (unit.pageEntryAddress index)
  · rw [if_pos same, if_neg]
    · rfl
    · rw [← PageEntry.ofWord_marked, same]
      exact fun differs => differs rfl
  · rw [if_neg same, if_pos, written]
    · rfl
    · intro kept
      rw [kept, PageEntry.toWord_ofWord] at written
      exact same written.symm

theorem perform_locate (unit : TranslationUnit) (memory : μ) (address : VirtualAddress)
    (modes : AccessModes) (key : Byte) :
    (unit.locate address modes key).perform memory =
      match ((unit.resolveSegment address).perform memory).1 with
      | .error fault => (.error fault, memory)
      | .ok descriptor =>
        if descriptor.grants modes address.ring key then
          match unit.pageAt memory descriptor.asid address.byteNumber with
          | none => (.error ⟨.pageFault, address⟩, memory)
          | some lookup =>
            (.ok (lookup.address, descriptor.execute), ((lookup.mark modes).perform memory).2)
        else (.error ⟨.accessViolation, address⟩, memory) := by
  unfold locate
  rw [Activity.perform_bind, (unit.resolveSegment_reads address).perform_memory]
  cases ((unit.resolveSegment address).perform memory).1 with
  | error fault => rfl
  | ok descriptor =>
    dsimp only
    split
    · rw [Activity.perform_bind, (unit.findPage_reads _ _).perform_memory]
      change (match unit.pageAt memory descriptor.asid address.byteNumber with
        | none => _
        | some lookup => _ : Activity _).perform memory = _
      cases unit.pageAt memory descriptor.asid address.byteNumber with
      | none => rfl
      | some lookup =>
        unfold PageLookup.mark
        dsimp only
        split <;> rfl
    · rfl

theorem prescribes_translate (unit : TranslationUnit) (memory : μ) (address : VirtualAddress)
    (modes : AccessModes) (key : Byte) :
    unit.Prescribes unit.probedPlace memory address modes key
      ((unit.translate address modes key).perform memory) := by
  unfold translate
  rw [Activity.perform_bind, perform_locate]
  -- The translation tests in the order of the rules.
  rcases unit.resolveSegment_cases memory address with
    ⟨beyond, resolved⟩ | ⟨below, lacks, resolved⟩ | ⟨below, named, resolved⟩
  · rw [resolved]
    exact .addressSpecification beyond
  · rw [resolved]
    exact .invalidSegment below lacks
  rw [resolved]
  dsimp only
  by_cases granted : (unit.descriptorOf memory address).grants modes address.ring key = true
  · have allowed := SegmentDescriptor.grants_iff.mp granted
    rw [if_pos granted, pageAt_eq]
    cases found : unit.entryOf memory (unit.descriptorOf memory address).asid
      (unit.pageOf address.byteNumber) with
    | none =>
      refine .pageFault below named allowed fun index finds => ?_
      rw [entryOf_eq_some_iff.mpr ⟨finds, rfl⟩] at found
      cases found
    | some pair =>
      obtain ⟨index, entry⟩ := pair
      obtain ⟨finds, rfl⟩ := entryOf_eq_some_iff.mp found
      have success := Prescribes.success below named allowed index finds
      rw [← setWidth_offset, ← perform_mark] at success
      exact success
  · rw [if_neg granted]
    exact .accessViolation below named (mt SegmentDescriptor.grants_iff.mpr granted)

/-- A lookup without rights tells of an address what a translation of it tells. It knows of no
violation, and a missing page is no fault there. -/
def Agrees (probed : Except TranslationFault (Option PageLookup)) :
    Except TranslationFault Address → Prop
  | .ok real => ∃ lookup, probed = .ok (some lookup) ∧ lookup.address = real
  | .error fault =>
    match fault.kind with
    | .addressSpecification | .invalidSegment => probed = .error fault
    | .accessViolation => ∃ found, probed = .ok found
    | .pageFault => probed = .ok none

theorem probe_agrees (unit : TranslationUnit) (memory : μ) (address : VirtualAddress)
    (modes : AccessModes) (key : Byte) :
    Agrees ((unit.probe address).perform memory).1
      ((unit.translate address modes key).perform memory).1.1 := by
  unfold translate probe
  rw [Activity.perform_bind, Activity.perform_bind, perform_locate,
    (unit.resolveSegment_reads address).perform_memory]
  cases resolved : ((unit.resolveSegment address).perform memory).1 with
  | error fault =>
    rcases unit.resolveSegment_cases memory address with
      ⟨-, found⟩ | ⟨-, -, found⟩ | ⟨-, -, found⟩ <;> rw [found] at resolved <;> cases resolved <;> rfl
  | ok descriptor =>
    dsimp only
    rw [Activity.perform_bind]
    by_cases granted : descriptor.grants modes address.ring key = true
    · rw [if_pos granted]
      change Agrees (.ok (unit.pageAt memory descriptor.asid address.byteNumber)) _
      cases unit.pageAt memory descriptor.asid address.byteNumber with
      | none => rfl
      | some lookup => exact ⟨lookup, rfl, rfl⟩
    · rw [if_neg granted]
      exact ⟨_, rfl⟩

/-- The search order that goes through the page table in a circle. -/
def circular (unit : TranslationUnit) : SearchOrder := fun asid page probe =>
  BitVec.ofNat 32 (((unit.hash asid page).toNat + probe) % unit.pageTableEntries)

/-- The bits of a page index are the remainder by the size of the table only where that is a power
of two. -/
theorem probedPlace_eq_circular {unit : TranslationUnit} {count : Nat}
    (power : unit.pageTableEntries = 2 ^ count) : unit.probedPlace = unit.circular := by
  funext asid page probe
  have small : unit.pageTableEntries ≤ 2 ^ 17 := by
    have length := unit.pageTableLength.isLt
    rw [pageTableEntries_eq]
    omega
  rw [power] at small
  have divides : 2 ^ count ∣ 2 ^ 32 := by
    apply Nat.pow_dvd_pow
    have := (Nat.pow_le_pow_iff_right (by decide : 1 < 2)).mp small
    omega
  have mask : unit.indexMask.toNat = 2 ^ count - 1 := by
    unfold pageTableEntries at power
    omega
  apply BitVec.eq_of_toNat_eq
  unfold probedPlace circular
  rw [BitVec.toNat_and, mask, Nat.and_two_pow_sub_one_eq_mod, BitVec.toNat_add, BitVec.toNat_ofNat,
    BitVec.toNat_ofNat, power, Nat.mod_mod_of_dvd _ divides, Nat.add_mod, Nat.mod_mod_of_dvd _ divides,
    ← Nat.add_mod]
  symm
  apply Nat.mod_eq_of_lt
  have := Nat.mod_lt ((unit.hash asid page).toNat + probe) (Nat.two_pow_pos count)
  omega

/-- Of every access, translations do exactly what the rules prescribe. Searches take the bits of
the page index, which go around a table whose size is a power of two. -/
theorem translate_prescribed (unit : TranslationUnit) (memory : μ) (address : VirtualAddress)
    (modes : AccessModes) (key : Byte) :
    (∀ result, (unit.translate address modes key).perform memory = result ↔
      unit.Prescribes unit.probedPlace memory address modes key result) ∧
    (∀ count, unit.pageTableEntries = 2 ^ count → unit.probedPlace = unit.circular) ∧
    ((unit.probe address).perform memory).2 = memory ∧
    Agrees ((unit.probe address).perform memory).1
      ((unit.translate address modes key).perform memory).1.1 := by
  have prescribed := unit.prescribes_translate memory address modes key
  refine ⟨fun result => ⟨?_, ?_⟩, fun count => probedPlace_eq_circular,
    (unit.probe_reads address).perform_memory memory, unit.probe_agrees memory address modes key⟩
  · rintro rfl
    exact prescribed
  · exact prescribed.unique

end

theorem initial_prescribed :
    initial.pageTableEntries = 2 ^ 9 ∧ initial.probedPlace = initial.circular := by
  have power : initial.pageTableEntries = 2 ^ 9 := by decide
  exact ⟨power, (initial.translate_prescribed (CyclicMemory.zeroed 1) .zero .forRead 0).2.1 9 power⟩

def tripleTable : TranslationUnit := { initial with pageTable := 0x1000, pageTableLength := 2 }

/-- The entry at place 511 continues, and the one at place 512 is that of page 511. -/
def tripleMemory : CyclicMemory :=
  ⟨4096, ((WordStore.empty.set 0 0x6ABB000000000000).set 1023 0x4000000000000000).set 1024
    0x800000007FC00008⟩

/-- After place 511 the search goes on at place 0. -/
theorem tripleTable_not_circular :
    ¬ tripleTable.Prescribes tripleTable.circular tripleMemory ⟨11, 0, 0x3FE00⟩ .forRead 0
      ((tripleTable.translate ⟨11, 0, 0x3FE00⟩ .forRead 0).perform tripleMemory) := by
  have fault : ((tripleTable.translate ⟨11, 0, 0x3FE00⟩ .forRead 0).perform tripleMemory).1.1 =
      .error ⟨.pageFault, ⟨11, 0, 0x3FE00⟩⟩ := by decide +kernel
  have next : tripleTable.Finds tripleTable.circular tripleMemory
      (tripleTable.descriptorOf tripleMemory ⟨11, 0, 0x3FE00⟩).asid
      (tripleTable.pageOf 0x3FE00) 512 :=
    ⟨1, by decide, by decide +kernel, by decide +kernel, by decide +kernel⟩
  intro prescribed
  generalize (tripleTable.translate ⟨11, 0, 0x3FE00⟩ .forRead 0).perform tripleMemory = result
    at fault prescribed
  cases prescribed with
  | pageFault _ _ _ missing => exact missing 512 next
  | _ => cases fault

end TranslationUnit

end Mainframe
