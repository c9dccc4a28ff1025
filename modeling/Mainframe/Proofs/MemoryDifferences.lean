import Mainframe.Proofs.LockedUpdates
import Mainframe.Proofs.PageInstallation

/-! Memories that differ in the bytes at some places, and in marks of use. Translations go the same
way in both, a page is entered in both at the same place, and a byte that is stored in both at one
of the places is a difference no more. -/

set_option autoImplicit false

namespace Mainframe

variable {μ : Type}

/-! ## Words under marks -/

theorem Word.withByteAt_or_congr {word other marks : Word} (same : word ||| marks = other ||| marks)
    (index : Nat) (byte : Byte) :
    word.withByteAt index byte ||| marks = other.withByteAt index byte ||| marks := by
  unfold withByteAt
  apply BitVec.eq_of_getLsbD_eq
  intro bit _
  have covered := congrArg (BitVec.getLsbD · bit) same
  simp only [BitVec.getLsbD_or, BitVec.getLsbD_and] at covered ⊢
  cases masked : marks.getLsbD bit with
  | true => simp
  | false =>
    simp only [masked, Bool.or_false] at covered ⊢
    rw [covered]

namespace TranslationUnit

variable [Bus μ] [SlottedBus μ] (unit : TranslationUnit)

/-! ## Differences -/

/-- The tables are the same but for marks of use, and outside the page table the bytes at some
places are all that may differ. -/
structure DiffersAt (places : List Address) (memory kept : μ) : Prop
    extends SearchesAlike unit memory kept where
  bytes : ∀ address, unit.SparesWord memory address →
    cellAt memory address ∉ places.map (cellAt memory) → byteAt kept address = byteAt memory address

variable {unit} {start memory kept last : μ} {places more : List Address}

namespace SearchesAlike

theorem symm (alike : unit.SearchesAlike memory kept) : unit.SearchesAlike kept memory where
  slots address := (alike.slots address).symm
  segments segment reached := (alike.segments segment reached).symm
  entries index within := (alike.entries index within).symm

theorem trans (first : unit.SearchesAlike start memory) (second : unit.SearchesAlike memory kept) :
    unit.SearchesAlike start kept where
  slots address := (second.slots address).trans (first.slots address)
  segments segment reached :=
    (second.segments segment reached).trans (first.segments segment reached)
  entries index within := (second.entries index within).trans (first.entries index within)

variable (alike : unit.SearchesAlike memory kept)

include alike

theorem sparesWord_iff (address : Address) :
    unit.SparesWord kept address ↔ unit.SparesWord memory address := by
  unfold SparesWord
  simp only [alike.slots]

theorem outcome_eq (access : Access) : access.outcome unit kept = access.outcome unit memory := by
  obtain ⟨_, -, goes⟩ := access.perform_of_alike alike
  exact congrArg (fun done => done.1.1) goes

end SearchesAlike

theorem TablesApart.congr (apart : unit.TablesApart memory)
    (slots : ∀ address, SlottedBus.slot kept address = SlottedBus.slot memory address) :
    unit.TablesApart kept := by
  unfold TablesApart at apart ⊢
  simpa only [slots] using apart

namespace DiffersAt

theorem refl : unit.DiffersAt [] memory memory := ⟨.refl, fun _ _ _ => rfl⟩

theorem symm (differs : unit.DiffersAt places memory kept) : unit.DiffersAt places kept memory := by
  refine ⟨differs.toSearchesAlike.symm, fun address spares outside => ?_⟩
  rw [cellAt_congr differs.slots] at outside
  exact (differs.bytes address ((differs.sparesWord_iff address).mp spares) outside).symm

theorem trans (first : unit.DiffersAt places memory kept) (second : unit.DiffersAt more kept last) :
    unit.DiffersAt (places ++ more) memory last := by
  refine ⟨first.toSearchesAlike.trans second.toSearchesAlike, fun address spares outside => ?_⟩
  rw [List.map_append, List.mem_append, not_or] at outside
  rw [second.bytes address ((first.sparesWord_iff address).mpr spares)
      (by rw [cellAt_congr first.slots]; exact outside.2),
    first.bytes address spares outside.1]

theorem mono (differs : unit.DiffersAt places memory kept) (within : places ⊆ more) :
    unit.DiffersAt more memory kept :=
  ⟨differs.toSearchesAlike, fun address spares outside =>
    differs.bytes address spares fun member => outside (List.map_subset _ within member)⟩

end DiffersAt

theorem differsAt_leave [ForgetfulBus μ] (apart : unit.TablesApart start)
    (alike : unit.SearchesAlike start memory) (access : Access) :
    unit.DiffersAt [] memory (access.leave unit start memory) := by
  refine ⟨alike.symm.trans (access.leave_alike apart alike), fun address spares _ => ?_⟩
  unfold Access.leave
  cases placed : access.place unit start with
  | none => rfl
  | some index =>
    have within := (Access.place_spec placed).2.inTable
    rw [byteAt, (unit.rewrites_marked memory index access.modes).others address
      (by simpa using spares index within), byteAt]

theorem DiffersAt.leave [ForgetfulBus μ] (differs : unit.DiffersAt places memory kept)
    (apart : unit.TablesApart memory) (access : Access) :
    unit.DiffersAt places (access.leave unit memory memory) (access.leave unit memory kept) := by
  have first := differsAt_leave apart .refl access
  have second := differsAt_leave apart differs.toSearchesAlike access
  simpa using (first.symm.trans differs).trans second

/-! ## A byte stored in both -/

section

variable [ForgetfulBus μ] {place : Address}

omit [ForgetfulBus μ] in
theorem slot_writeEach (memory : μ) (bytes : List Byte) (place address : Address) :
    SlottedBus.slot ((Activity.writeEach bytes place).perform memory).2 address =
      SlottedBus.slot memory address := by
  induction bytes generalizing memory place with
  | nil => rfl
  | cons byte rest ih =>
    rw [Activity.writeEach, Activity.perform_bind, ih, perform_writeByte, SlottedBus.slot_writeWord]

theorem slot_writeBytes (memory : μ) (bytes : List Byte) (place address : Address) :
    SlottedBus.slot ((Activity.writeBytes bytes place).perform memory).2 address =
      SlottedBus.slot memory address := by
  rw [Activity.perform_writeBytes_eq, slot_writeEach]

omit [ForgetfulBus μ] in
theorem readWord_writeByte (memory : μ) (place address : Address) (byte : Byte) :
    Bus.readWord ((Activity.writeByte place byte).perform memory).2 address =
      if SlottedBus.slot memory address = SlottedBus.slot memory place ∧
          SlottedBus.slot memory address ≠ none then
        (Bus.readWord memory address).withByteAt (Activity.byteIndex place) byte
      else Bus.readWord memory address := by
  rw [perform_writeByte, SlottedBus.readWord_writeWord]
  split
  · next same => rw [SlottedBus.readWord_congr memory same.1]
  · rfl

namespace DiffersAt

theorem writeByte (differs : unit.DiffersAt (place :: places) memory kept) (byte : Byte) :
    unit.DiffersAt places ((Activity.writeByte place byte).perform memory).2
      ((Activity.writeByte place byte).perform kept).2 where
  slots address := by
    rw [perform_writeByte, perform_writeByte, SlottedBus.slot_writeWord, SlottedBus.slot_writeWord,
      differs.slots]
  segments segment reached := by
    rw [readWord_writeByte, readWord_writeByte, differs.slots, differs.slots,
      differs.segments segment reached]
  entries index within := by
    rw [readWord_writeByte, readWord_writeByte, differs.slots, differs.slots]
    -- A byte that is stored in an entry may well replace marks, in both memories alike.
    split
    · exact Word.withByteAt_or_congr (differs.entries index within) _ _
    · exact differs.entries index within
  bytes address spares outside := by
    have slots (address : Address) :
        SlottedBus.slot ((Activity.writeByte place byte).perform memory).2 address =
          SlottedBus.slot memory address := SlottedBus.slot_writeWord memory place address _
    rw [cellAt_congr slots] at outside
    have spares : unit.SparesWord memory address := by
      unfold SparesWord at spares ⊢
      simpa only [slots] using spares
    rw [byteAt_writeByte, byteAt_writeByte, cellAt_congr differs.slots, differs.slots]
    split
    · rfl
    next elsewhere =>
    by_cases missing : SlottedBus.slot memory address = none
    · -- There is no byte in either memory.
      rw [byteAt, byteAt, ForgetfulBus.readWord_missing memory missing,
        ForgetfulBus.readWord_missing kept ((differs.slots address).trans missing)]
    · refine differs.bytes address spares fun member => ?_
      rcases List.mem_cons.mp member with here | there
      · exact elsewhere ⟨here, missing⟩
      · exact outside there

theorem writeEach {bytes : List Byte} {address : Address}
    (differs : unit.DiffersAt (run bytes.length address ++ places) memory kept) :
    unit.DiffersAt places ((Activity.writeEach bytes address).perform memory).2
      ((Activity.writeEach bytes address).perform kept).2 := by
  induction bytes generalizing address memory kept with
  | nil => exact differs
  | cons byte rest ih =>
    rw [Activity.writeEach, Activity.perform_bind, Activity.perform_bind]
    exact ih (differs.writeByte byte)

theorem writeBytes {bytes : List Byte} {address : Address}
    (differs : unit.DiffersAt (run bytes.length address ++ places) memory kept) :
    unit.DiffersAt places ((Activity.writeBytes bytes address).perform memory).2
      ((Activity.writeBytes bytes address).perform kept).2 := by
  rw [Activity.perform_writeBytes_eq, Activity.perform_writeBytes_eq]
  exact differs.writeEach

end DiffersAt

/-! ## Bytes stored outside the tables -/

variable (unit) in
/-- The places are outside the tables, or there is nothing there. -/
def Outside (memory : μ) (places : List Address) : Prop :=
  ∀ place ∈ places, SlottedBus.slot memory place ≠ none → ¬ unit.InTables memory place

omit [ForgetfulBus μ] in
theorem outside_append :
    unit.Outside memory (places ++ more) ↔ unit.Outside memory places ∧ unit.Outside memory more :=
  List.forall_mem_append

omit [ForgetfulBus μ] in
theorem Outside.congr (outside : unit.Outside memory places)
    (slots : ∀ address, SlottedBus.slot kept address = SlottedBus.slot memory address) :
    unit.Outside kept places := by
  unfold Outside InTables at outside ⊢
  simpa only [slots] using outside

omit [ForgetfulBus μ] in
theorem differsAt_writeByte (byte : Byte)
    (outside : SlottedBus.slot memory place ≠ none → ¬ unit.InTables memory place) :
    unit.DiffersAt [place] memory ((Activity.writeByte place byte).perform memory).2 := by
  have spares : unit.Spares memory (Activity.writeByte place byte) := .writeByte byte outside
  refine ⟨spares.alike .refl, fun address _ elsewhere => ?_⟩
  rw [byteAt_writeByte, if_neg fun here => elsewhere (List.mem_singleton.mpr here.1)]

omit [ForgetfulBus μ] in
theorem differsAt_writeEach {bytes : List Byte} {address : Address}
    (outside : unit.Outside memory (run bytes.length address)) :
    unit.DiffersAt (run bytes.length address) memory
      ((Activity.writeEach bytes address).perform memory).2 := by
  induction bytes generalizing address memory with
  | nil => exact .refl
  | cons byte rest ih =>
    obtain ⟨here, others⟩ := List.forall_mem_cons.mp outside
    have first := differsAt_writeByte byte here
    rw [Activity.writeEach, Activity.perform_bind]
    have others : unit.Outside memory (run rest.length (address + 1)) := others
    exact first.trans (ih (others.congr first.slots))

theorem differsAt_writeBytes (bytes : List Byte) (address : Address)
    (outside : unit.Outside memory (run bytes.length address)) :
    unit.DiffersAt (run bytes.length address) memory
      ((Activity.writeBytes bytes address).perform memory).2 := by
  rw [Activity.perform_writeBytes_eq]
  exact differsAt_writeEach outside

end

/-! ## A page entered in both -/

theorem PageEntry.or_marks_congr {word other : Word}
    (same : PageEntry.ofWord (word ||| PageEntry.marks .forUpdate) =
      PageEntry.ofWord (other ||| PageEntry.marks .forUpdate)) :
    word ||| PageEntry.marks .forUpdate = other ||| PageEntry.marks .forUpdate := by
  rw [← PageEntry.toWord_ofWord (word ||| _), same, PageEntry.toWord_ofWord]

section

variable {asid : BitVec 16} {page frame : HalfWord} {passed others : List PageIndex}
  {index other : PageIndex} {present entered : μ}

theorem HasPageTable.congr (table : unit.HasPageTable memory)
    (slots : ∀ address, SlottedBus.slot kept address = SlottedBus.slot memory address) :
    unit.HasPageTable kept := by
  refine ⟨fun index within => ?_, fun index other within inside same => ?_⟩
  · rw [slots]
    exact table.exist index within
  · rw [slots, slots] at same
    exact table.distinct index other within inside same

theorem HasPageTable.sparesWord_segment (table : unit.HasPageTable memory)
    (apart : unit.TablesApart memory) {segment : Nat}
    (reached : segment ≤ unit.segmentLimit.toNat) :
    unit.SparesWord memory (unit.segmentEntryAddress segment) := by
  intro place within same
  exact apart segment reached place within (same ▸ table.exist place within) same

theorem Enters.marksTable (enters : unit.Enters memory asid page frame passed index kept) :
    unit.MarksTable memory kept := ⟨_, enters.inside, enters.rewrites⟩

theorem HasPageTable.installPage_marksTable (table : unit.HasPageTable memory) (asid : BitVec 16)
    (page frame : HalfWord) :
    unit.MarksTable memory ((unit.installPage asid page frame).perform memory).2 := by
  rcases table.installPage asid page frame with ⟨full, -⟩ | ⟨passed, index, -, enters⟩
  · rw [full]
    exact .refl
  · exact enters.marksTable

theorem MarksTable.byteAt_eq (marks : unit.MarksTable memory kept) {address : Address}
    (spares : unit.SparesWord memory address) : byteAt kept address = byteAt memory address := by
  rw [byteAt, marks.readWord_eq spares, byteAt]

theorem SearchesAlike.open_iff (alike : unit.SearchesAlike memory kept)
    (within : unit.InTable index) (identifier : BitVec 38) :
    unit.Open kept identifier index ↔ unit.Open memory identifier index := by
  obtain ⟨valid, -, named, -⟩ := alike.entry_eq within
  unfold Open
  rw [valid, named]

theorem SearchesAlike.enters_at (alike : unit.SearchesAlike memory kept)
    (enters : unit.Enters memory asid page frame passed index present)
    (again : unit.Enters kept asid page frame others other entered) :
    passed = others ∧ index = other := by
  obtain ⟨after, split⟩ := enters.window
  obtain ⟨rest, window⟩ := again.window
  refine split_unique (unit.Open memory (pageIdentifier asid page)) (split.symm.trans window)
    enters.taken enters.free (fun place member isOpen => ?_) ?_
  · have within := again.inside place (List.mem_append_left _ member)
    exact again.taken place member ((alike.open_iff within _).mpr isOpen)
  · exact (alike.open_iff again.inTable _).mp again.free

theorem DiffersAt.enters (differs : unit.DiffersAt places memory kept)
    (table : unit.HasPageTable memory) (apart : unit.TablesApart memory)
    (enters : unit.Enters memory asid page frame passed index present)
    (again : unit.Enters kept asid page frame passed index entered) :
    unit.DiffersAt places present entered := by
  have here := enters.marksTable
  have there := again.marksTable
  have slots (address : Address) :
      SlottedBus.slot entered address = SlottedBus.slot present address := by
    rw [there.slot_eq, here.slot_eq, differs.slots]
  refine ⟨⟨slots, fun segment reached => ?_, fun place within => ?_⟩,
    fun address spares outside => ?_⟩
  · have spares := table.sparesWord_segment apart reached
    rw [here.readWord_eq spares, there.readWord_eq ((differs.sparesWord_iff _).mpr spares),
      differs.segments segment reached]
  · -- The entry is written anew, passed over or left as it was, in both.
    apply PageEntry.or_marks_congr
    rw [PageEntry.ofWord_or_marks, PageEntry.ofWord_or_marks]
    change { unit.entryAt entered place with used := true, modified := true } =
      { unit.entryAt present place with used := true, modified := true }
    obtain ⟨valid, continues, named, frame⟩ := differs.entry_eq within
    rw [enters.entries place within, again.entries place within]
    split
    · next same =>
      subst same
      rw [freshEntry, freshEntry, continues]
    split
    · dsimp only
      rw [valid, named, frame]
    · dsimp only
      rw [valid, continues, named, frame]
  · have spares := here.sparesWord spares
    rw [cellAt_congr here.slot_eq] at outside
    rw [here.byteAt_eq spares, there.byteAt_eq ((differs.sparesWord_iff _).mpr spares),
      differs.bytes address spares outside]

theorem DiffersAt.installPage (differs : unit.DiffersAt places memory kept)
    (table : unit.HasPageTable memory) (apart : unit.TablesApart memory) (asid : BitVec 16)
    (page frame : HalfWord) :
    unit.DiffersAt places ((unit.installPage asid page frame).perform memory).2
      ((unit.installPage asid page frame).perform kept).2 := by
  have again := table.congr differs.slots
  rcases table.installPage asid page frame with ⟨full, taken⟩ | ⟨passed, index, -, enters⟩
  · rcases again.installPage asid page frame with ⟨same, -⟩ | ⟨others, other, -, enters⟩
    · rw [full, same]
      exact differs
    · obtain ⟨after, split⟩ := enters.window
      have free := (differs.open_iff enters.inTable _).mp enters.free
      exact (taken other (by simp [split]) free).elim
  · rcases again.installPage asid page frame with ⟨-, taken⟩ | ⟨others, other, -, enterToo⟩
    · obtain ⟨after, split⟩ := enters.window
      have free := (differs.open_iff enters.inTable _).mpr enters.free
      exact (taken index (by simp [split]) free).elim
    · obtain ⟨rfl, rfl⟩ := differs.enters_at enters enterToo
      exact differs.enters table apart enters enterToo

/-! ## Translations that stay -/

variable (unit) in
/-- What translates with the first memory translates in the same way with the second. -/
def Serves (memory kept : μ) : Prop :=
  ∀ (access : Access) (real : Address), access.outcome unit memory = .ok real →
    access.outcome unit kept = .ok real

omit [SlottedBus μ] in
theorem Serves.trans (first : unit.Serves memory kept) (second : unit.Serves kept last) :
    unit.Serves memory last := fun access real found => second access real (first access real found)

theorem SearchesAlike.serves (alike : unit.SearchesAlike memory kept) :
    unit.Serves memory kept := fun access _ found => (alike.outcome_eq access).trans found

omit [SlottedBus μ] in
theorem not_finds_of_pageFault {access : Access}
    (missing : access.outcome unit memory = .error ⟨.pageFault, access.address⟩) :
    access.address.byteNumber.toNat < 2 ^ 31 ∧
      ∀ index, ¬ unit.Finds unit.probedPlace memory (unit.descriptorOf memory access.address).asid
        (unit.pageOf access.address.byteNumber) index := by
  have prescribed := unit.prescribes_translate memory access.address access.modes access.key
  unfold Access.outcome Access.translate at missing
  generalize (unit.translate access.address access.modes access.key).perform memory = result
    at prescribed missing
  cases prescribed with
  | pageFault below _ _ none => exact ⟨below, none⟩
  | _ => cases missing

/-- Entering a page that was missing leaves all other translations as they were. -/
theorem Enters.serves {access : Access} (table : unit.HasPageTable memory)
    (apart : unit.TablesApart memory)
    (missing : access.outcome unit memory = .error ⟨.pageFault, access.address⟩)
    (enters : unit.Enters memory (unit.descriptorOf memory access.address).asid
      (unit.pageOf access.address.byteNumber) frame passed index kept) :
    unit.Serves memory kept := by
  intro other real found
  obtain ⟨inside, unknown⟩ := not_finds_of_pageFault missing
  obtain ⟨below, named, allowed, place, finds, rfl⟩ := Access.outcome_eq_ok_iff.mp found
  have reached : other.address.segment.toNat ≤ unit.segmentLimit.toNat :=
    Nat.le_of_not_lt fun beyond => named (.inr (.inl beyond))
  have descriptor : unit.descriptorOf kept other.address = unit.descriptorOf memory other.address :=
    congrArg SegmentDescriptor.ofWord
      (enters.marksTable.readWord_eq (table.sparesWord_segment apart reached))
  -- A page that other translations find is not the one that was missing, so its entry stays.
  have differs : pageIdentifier (unit.descriptorOf memory other.address).asid
      (unit.pageOf other.address.byteNumber) ≠
        pageIdentifier (unit.descriptorOf memory access.address).asid
          (unit.pageOf access.address.byteNumber) := by
    intro same
    obtain ⟨segment, page⟩ := pageIdentifier_inj (unit.toNat_pageOf_lt below)
      (unit.toNat_pageOf_lt inside) same
    rw [segment, page] at finds
    exact unknown place finds
  obtain ⟨continues, again⟩ := enters.entryOf_other differs (entryOf_eq_some_iff.mpr ⟨finds, rfl⟩)
  obtain ⟨finds, entry⟩ := entryOf_eq_some_iff.mp again
  refine Access.outcome_eq_ok_iff.mpr ⟨below, ?_, ?_, place, ?_, ?_⟩
  · unfold LacksSegment at named ⊢
    rwa [descriptor]
  · rwa [descriptor]
  · rwa [descriptor]
  · rw [← entry]
    rfl

theorem HasPageTable.installPage_serves {access : Access} (table : unit.HasPageTable memory)
    (apart : unit.TablesApart memory)
    (missing : access.outcome unit memory = .error ⟨.pageFault, access.address⟩)
    (frame : HalfWord) :
    unit.Serves memory ((unit.installPage (unit.descriptorOf memory access.address).asid
      (unit.pageOf access.address.byteNumber) frame).perform memory).2 := by
  rcases table.installPage (unit.descriptorOf memory access.address).asid
    (unit.pageOf access.address.byteNumber) frame with ⟨full, -⟩ | ⟨passed, index, -, enters⟩
  · rw [full]
    exact fun _ _ found => found
  · exact enters.serves table apart missing

end

end TranslationUnit

end Mainframe
