import Mainframe.Proofs.History
import Mainframe.Translation.Translate

/-! What a successful translation rests on: the descriptor and the page table entry that it found,
and the only change that it makes to memory, the marks of use in that entry. -/

set_option autoImplicit false

namespace Mainframe

variable {μ : Type}

namespace PageEntry

def usedBit : Word := Word.selector 2

def modifiedBit : Word := Word.selector 3

def marks (modes : AccessModes) : Word := usedBit ||| if modes.write then modifiedBit else 0

theorem getElem_marks (modes : AccessModes) (bit : Nat) (inside : bit < 64) :
    (marks modes)[bit] = (decide (bit = 61) || decide (bit = 60) && modes.write) := by
  have used : usedBit = BitVec.twoPow 64 61 := rfl
  have modified : modifiedBit = BitVec.twoPow 64 60 := rfl
  cases writing : modes.write <;> simp [marks, used, modified, writing, BitVec.getElem_twoPow]

theorem toWord_touched (word : Word) (modes : AccessModes) :
    ((ofWord word).touched modes).toWord = word ||| marks modes := by
  ext bit inside
  rw [BitVec.getElem_or, getElem_marks]
  simp [ofWord, touched, toWord, -BitVec.ofBool_true]
  grind

end PageEntry

namespace TranslationUnit

variable (unit : TranslationUnit)

/-! ## Lookups change nothing -/

theorem segmentDescriptor_reads (segment : Nat) : (unit.segmentDescriptor segment).OnlyReads := by
  unfold segmentDescriptor
  split
  · exact .pure _
  · exact .bind (.readWord _) fun word => .pure _

theorem resolveSegment_reads (address : VirtualAddress) :
    (unit.resolveSegment address).OnlyReads := by
  unfold resolveSegment
  split
  · exact .pure _
  split
  · exact .pure _
  · refine .bind (unit.segmentDescriptor_reads _) fun found => ?_
    cases found with
    | none => exact .pure _
    | some descriptor =>
      dsimp only
      split <;> exact .pure _

theorem findEntry_reads (identifier : BitVec 38) (places : List PageIndex) :
    (unit.findEntry identifier places).OnlyReads := by
  induction places with
  | nil => exact .pure _
  | cons index rest ih =>
    refine .bind (.readWord _) fun word => ?_
    dsimp only
    split
    · exact .pure _
    split
    · exact ih
    · exact .pure _

theorem findPage_reads (asid : BitVec 16) (byteNumber : HalfWord) :
    (unit.findPage asid byteNumber).OnlyReads :=
  .bind (unit.findEntry_reads _ _) fun _ => .pure _

theorem probe_reads (address : VirtualAddress) : (unit.probe address).OnlyReads := by
  refine .bind (unit.resolveSegment_reads address) fun resolved => ?_
  cases resolved with
  | error fault => exact .pure _
  | ok descriptor => exact .bind (unit.findPage_reads _ _) fun found => .pure _

/-! ## What lookups find -/

def descriptorAt [Bus μ] (memory : μ) (segment : Nat) : Option SegmentDescriptor :=
  ((unit.segmentDescriptor segment).perform memory).1

theorem descriptorAt_eq [Bus μ] (memory : μ) (segment : Nat) :
    unit.descriptorAt memory segment =
      if unit.segmentLimit.toNat < segment then none
      else some (.ofWord (Bus.readWord memory (unit.segmentEntryAddress segment))) := by
  unfold descriptorAt segmentDescriptor
  split <;> rfl

def pageAt [Bus μ] (memory : μ) (asid : BitVec 16) (byteNumber : HalfWord) : Option PageLookup :=
  ((unit.findPage asid byteNumber).perform memory).1

/-- An address is translated for an access: it names a valid segment, which grants the access at
the ring of the address, and its page is in the page table. -/
structure Translates [Bus μ] (key : Byte) (memory : μ) (address : VirtualAddress)
    (modes : AccessModes) (descriptor : SegmentDescriptor) (lookup : PageLookup) : Prop where
  byteNumber : address.byteNumber.toNat < 2 ^ 31
  ring : address.ring ≠ 0
  segment : unit.descriptorAt memory address.segment.toNat = some descriptor
  valid : descriptor.valid = true
  granted : descriptor.grants modes address.ring key = true
  page : unit.pageAt memory descriptor.asid address.byteNumber = some lookup

theorem findEntry_some [Bus μ] {memory : μ} {identifier : BitVec 38} {places : List PageIndex}
    {index : PageIndex} {entry : PageEntry}
    (found : ((unit.findEntry identifier places).perform memory).1 = some (index, entry)) :
    entry = .ofWord (Bus.readWord memory (unit.pageEntryAddress index)) ∧ entry.valid = true ∧
      entry.identifier = identifier.setWidth 64 := by
  induction places with
  | nil => cases found
  | cons place rest ih =>
    -- The search reads the entry and ends there, goes on, or gives up.
    change ((if _ then _ else _ : Activity (Option (PageIndex × PageEntry))).perform memory).1 = _
      at found
    split at found
    · next matched =>
      cases found
      simpa using matched
    split at found
    · exact ih found
    · cases found

theorem pageAt_some [Bus μ] {memory : μ} {asid : BitVec 16} {byteNumber : HalfWord}
    {lookup : PageLookup} (found : unit.pageAt memory asid byteNumber = some lookup) :
    lookup.entryAddress = unit.pageEntryAddress lookup.index ∧
      lookup.entry = .ofWord (Bus.readWord memory lookup.entryAddress) ∧
      lookup.entry.valid = true ∧
      lookup.address =
        lookup.entry.frameAddress ||| (byteNumber &&& unit.offsetMask).setWidth 64 := by
  unfold pageAt findPage at found
  rw [Activity.perform_bind] at found
  obtain ⟨⟨index, entry⟩, matched, rfl⟩ := Option.map_eq_some_iff.mp found
  obtain ⟨same, valid, -⟩ := unit.findEntry_some matched
  exact ⟨rfl, same, valid, rfl⟩

theorem resolveSegment_ok [Bus μ] {memory : μ} {address : VirtualAddress}
    {descriptor : SegmentDescriptor}
    (resolved : ((unit.resolveSegment address).perform memory).1 = .ok descriptor) :
    address.byteNumber.toNat < 2 ^ 31 ∧ address.ring ≠ 0 ∧
      unit.descriptorAt memory address.segment.toNat = some descriptor ∧
      descriptor.valid = true := by
  unfold resolveSegment at resolved
  split at resolved
  · cases resolved
  next low =>
  split at resolved
  · cases resolved
  next ring =>
  rw [Activity.perform_bind, (unit.segmentDescriptor_reads _).perform_eq] at resolved
  have looked : ((unit.segmentDescriptor address.segment.toNat).perform memory).1 =
      unit.descriptorAt memory address.segment.toNat := rfl
  rw [looked] at resolved
  cases found : unit.descriptorAt memory address.segment.toNat with
  | none =>
    rw [found] at resolved
    cases resolved
  | some segment =>
    rw [found] at resolved
    dsimp only at resolved
    split at resolved
    · next valid =>
      cases resolved
      refine ⟨?_, ring, rfl, valid⟩
      simpa [BitVec.msb_eq_decide] using low
    · cases resolved

theorem read_mem_history [Bus μ] {memory : μ} {address : VirtualAddress}
    {descriptor : SegmentDescriptor}
    (resolved : ((unit.resolveSegment address).perform memory).1 = .ok descriptor) :
    ⟨memory, .read (unit.segmentEntryAddress address.segment.toNat)⟩ ∈
      (unit.resolveSegment address).history memory := by
  obtain ⟨low, ring, found, -⟩ := unit.resolveSegment_ok resolved
  have positive : address.byteNumber.msb = false := by
    simpa [BitVec.msb_eq_decide] using low
  rw [descriptorAt_eq] at found
  have within : ¬ unit.segmentLimit.toNat < address.segment.toNat := by
    intro beyond
    simp [beyond] at found
  unfold resolveSegment segmentDescriptor
  rw [if_neg (by simp [positive]), if_neg ring, if_neg within]
  exact List.mem_cons_self

end TranslationUnit

/-! ## The marks of use -/

def PageLookup.mark (lookup : PageLookup) (modes : AccessModes) : Activity Unit :=
  if lookup.entry.touched modes ≠ lookup.entry then
    Activity.writeWord lookup.entryAddress (lookup.entry.touched modes).toWord
  else pure ()

namespace TranslationUnit

variable (unit : TranslationUnit)

/-- A translation either fails and leaves memory alone, or finds a page and marks its entry. -/
theorem locate_cases [Bus μ] (memory : μ) (address : VirtualAddress) (modes : AccessModes)
    (key : Byte) :
    (∃ fault, (unit.locate address modes key).perform memory = (.error fault, memory) ∧
      ∀ moment ∈ (unit.locate address modes key).history memory,
        ∃ place, moment = ⟨memory, .read place⟩) ∨
    ∃ descriptor lookup, unit.Translates key memory address modes descriptor lookup ∧
      (unit.locate address modes key).perform memory =
        (.ok (lookup.address, descriptor.execute), ((lookup.mark modes).perform memory).2) ∧
      ∃ reads, (unit.locate address modes key).history memory =
          reads ++ (lookup.mark modes).history memory ∧
        (∀ moment ∈ reads, ∃ place, moment = ⟨memory, .read place⟩) ∧
        ⟨memory, .read (unit.segmentEntryAddress address.segment.toNat)⟩ ∈ reads := by
  -- Nothing is written before the page has been found.
  have resolving := unit.resolveSegment_reads address
  unfold locate
  rw [Activity.perform_bind, Activity.history_bind, resolving.perform_memory]
  cases resolved : ((unit.resolveSegment address).perform memory).1 with
  | error fault =>
    refine .inl ⟨fault, rfl, fun moment member => ?_⟩
    exact resolving.moment_eq (by simpa using member)
  | ok descriptor =>
    dsimp only
    split
    · next granted =>
      have finding := unit.findPage_reads descriptor.asid address.byteNumber
      rw [Activity.perform_bind, Activity.history_bind, finding.perform_memory]
      have reads : ∀ moment ∈ (unit.resolveSegment address).history memory ++
          (unit.findPage descriptor.asid address.byteNumber).history memory,
          ∃ place, moment = ⟨memory, .read place⟩ := by
        intro moment member
        rcases List.mem_append.mp member with member | member
        · exact resolving.moment_eq member
        · exact finding.moment_eq member
      cases found : ((unit.findPage descriptor.asid address.byteNumber).perform memory).1 with
      | none => exact .inl ⟨_, rfl, by simpa using reads⟩
      | some lookup =>
        obtain ⟨low, ring, segment, valid⟩ := unit.resolveSegment_ok resolved
        refine .inr ⟨descriptor, lookup, ⟨low, ring, segment, valid, granted, found⟩, ?_, _, ?_,
          reads, List.mem_append_left _ (unit.read_mem_history resolved)⟩
        · unfold PageLookup.mark
          dsimp only
          split <;> rfl
        · unfold PageLookup.mark
          dsimp only
          split <;> simp
    · refine .inl ⟨_, rfl, fun moment member => ?_⟩
      exact resolving.moment_eq (by simpa using member)

end TranslationUnit

end Mainframe
