import Mainframe.Proofs.Confinement
import Mainframe.Proofs.PageChains

/-! The page table as a map from pages to frames. From a table without pages on, the history of the
pages entered and of the addresses translated says what each search finds: the place and the frame
with which the page was last entered, and the marks of the accesses since. -/

set_option autoImplicit false

namespace Mainframe

variable {μ : Type}

/-- What may be asked of the page table: to enter a page, or to translate an address. -/
inductive PageCall where
  | enter (asid : BitVec 16) (page frame : HalfWord)
  | translate (address : VirtualAddress) (modes : AccessModes) (key : Byte)

inductive PageEvent where
  | entered (asid : BitVec 16) (page frame : HalfWord) (place : Option PageIndex)
  | translated (address : VirtualAddress) (modes : AccessModes)
      (outcome : Except TranslationFault Address)
  deriving DecidableEq

namespace PageCall

/-- The number of a page that is entered has no more bits than identifiers have room for. -/
def Proper : PageCall → Prop
  | .enter _ page _ => page.toNat < 2 ^ 22
  | .translate .. => True

def carryOut (unit : TranslationUnit) : PageCall → Activity (PageEvent × TranslationUnit)
  | .enter asid page frame => do
    let place ← unit.installPage asid page frame
    return (.entered asid page frame place, unit)
  | .translate address modes key => do
    let (outcome, left) ← unit.translate address modes key
    return (.translated address modes outcome, left)

def carryOutAll (unit : TranslationUnit) :
    List PageCall → Activity (List PageEvent × TranslationUnit)
  | [] => return ([], unit)
  | call :: rest => do
    let (event, left) ← call.carryOut unit
    let (events, last) ← carryOutAll left rest
    return (event :: events, last)

end PageCall

namespace PageEvent

def Enters (asid : BitVec 16) (page : HalfWord) (event : PageEvent) : Prop :=
  ∃ frame index, event = .entered asid page frame (some index)

/-- An address of the page was translated for an access. In memory the segment table says which
segment has the identifier. -/
def Accesses [Bus μ] (unit : TranslationUnit) (memory : μ) (asid : BitVec 16) (page : HalfWord)
    (modes : AccessModes) (event : PageEvent) : Prop :=
  ∃ address real, event = .translated address modes (.ok real) ∧
    (unit.descriptorOf memory address).asid = asid ∧ unit.pageOf address.byteNumber = page

/-- A page that was entered is not entered elsewhere, and its place never lacks. -/
def Settles (first later : PageEvent) : Prop :=
  ∀ asid page frame index next place, first = .entered asid page frame (some index) →
    later = .entered asid page next place → place = some index

end PageEvent

namespace TranslationUnit

/-- What a history says of the entry of a page at a place: the page was last entered there with
the frame of the entry, and the entry has the marks of the accesses since then. -/
def Recalls [Bus μ] (unit : TranslationUnit) (memory : μ) (history : List PageEvent)
    (asid : BitVec 16) (page : HalfWord) (index : PageIndex) (entry : PageEntry) : Prop :=
  ∃ earlier frame later,
    history = earlier ++ .entered asid page frame (some index) :: later ∧
    (∀ event ∈ later, ¬ event.Enters asid page) ∧
    entry.frame = (frame.setWidth 22).setWidth 32 ∧
    (entry.used = true ↔
      ∃ event ∈ later, ∃ modes, event.Accesses unit memory asid page modes) ∧
    (entry.modified = true ↔
      ∃ event ∈ later, ∃ modes, modes.write = true ∧ event.Accesses unit memory asid page modes)

namespace Recalls

variable [Bus μ] {unit : TranslationUnit} {start : μ} {history : List PageEvent}
  {asid : BitVec 16} {page : HalfWord} {index : PageIndex} {entry later : PageEntry}
  {event : PageEvent}

theorem extend (recalls : unit.Recalls start history asid page index entry)
    (elsewhere : ¬ event.Enters asid page) (frame : later.frame = entry.frame)
    (used : later.used = true ↔
      entry.used = true ∨ ∃ modes, event.Accesses unit start asid page modes)
    (modified : later.modified = true ↔ entry.modified = true ∨
      ∃ modes, modes.write = true ∧ event.Accesses unit start asid page modes) :
    unit.Recalls start (history ++ [event]) asid page index later := by
  obtain ⟨earlier, entered, since, rfl, last, framed, isUsed, isModified⟩ := recalls
  refine ⟨earlier, entered, since ++ [event], by simp, ?_, frame.trans framed, ?_, ?_⟩
  · exact List.forall_mem_append.mpr ⟨last, by simpa using elsewhere⟩
  · simp only [used, isUsed, List.mem_append, List.mem_singleton, or_and_right, exists_or,
      exists_eq_left]
  · simp only [modified, isModified, List.mem_append, List.mem_singleton, or_and_right, exists_or,
      exists_eq_left]

theorem unconcerned (recalls : unit.Recalls start history asid page index entry)
    (elsewhere : ¬ event.Enters asid page)
    (untouched : ∀ modes, ¬ event.Accesses unit start asid page modes) :
    unit.Recalls start (history ++ [event]) asid page index entry :=
  recalls.extend elsewhere rfl (by simp [untouched]) (by simp [untouched])

theorem accessed (recalls : unit.Recalls start history asid page index entry)
    {address : VirtualAddress} {modes : AccessModes} {real : Address}
    (segment : (unit.descriptorOf start address).asid = asid)
    (number : unit.pageOf address.byteNumber = page) :
    unit.Recalls start (history ++ [.translated address modes (.ok real)]) asid page index
      (entry.touched modes) := by
  have access (other : AccessModes) :
      (PageEvent.translated address modes (.ok real)).Accesses unit start asid page other ↔
        other = modes := by
    constructor
    · rintro ⟨_, _, same, -⟩
      cases same
      rfl
    · rintro rfl
      exact ⟨address, real, rfl, segment, number⟩
  apply recalls.extend
  · rintro ⟨_, _, same⟩
    cases same
  · rfl
  · simp [access, PageEntry.touched]
  · simp [access, PageEntry.touched]

end Recalls

/-! ## One call -/

variable (unit : TranslationUnit) [Bus μ] [SlottedBus μ]

/-- A page table of zero words, which exist and differ from each other and from the words of the
segment table. -/
structure HasBlankPageTable (memory : μ) : Prop extends unit.HasPageTable memory where
  blank : ∀ index, unit.InTable index → Bus.readWord memory (unit.pageEntryAddress index) = 0
  apart : ∀ segment ≤ unit.segmentLimit.toNat, ∀ index, unit.InTable index →
    SlottedBus.slot memory (unit.segmentEntryAddress segment) ≠
      SlottedBus.slot memory (unit.pageEntryAddress index)

structure Reflects (start : μ) (history : List PageEvent) (memory : μ) : Prop where
  slots : ∀ address, SlottedBus.slot memory address = SlottedBus.slot start address
  segments : ∀ address : VirtualAddress, address.segment.toNat ≤ unit.segmentLimit.toNat →
    unit.descriptorOf memory address = unit.descriptorOf start address
  chained : unit.Chained memory
  recalls : ∀ asid page index, page.toNat < 2 ^ 22 → unit.InTable index →
    (unit.entryAt memory index).Carries (pageIdentifier asid page) →
      unit.Recalls start history asid page index (unit.entryAt memory index)
  carries : ∀ asid page frame index, .entered asid page frame (some index) ∈ history →
    unit.InTable index ∧ (unit.entryAt memory index).Carries (pageIdentifier asid page)
  settled : history.Pairwise PageEvent.Settles

variable {unit} {start memory kept : μ} {history : List PageEvent}

theorem HasBlankPageTable.reflects (fresh : unit.HasBlankPageTable start) :
    unit.Reflects start [] start := by
  have vacant (index : PageIndex) (within : unit.InTable index) (identifier : BitVec 38) :
      ¬ (unit.entryAt start index).Carries identifier := by
    intro carries
    have valid := carries.1
    rw [entryAt, fresh.blank index within] at valid
    cases valid
  exact {
    slots := fun _ => rfl
    segments := fun _ _ => rfl
    chained := fun asid page index _ within carries => (vacant index within _ carries).elim
    recalls := fun asid page index _ within carries => (vacant index within _ carries).elim
    carries := fun _ _ _ _ member => (List.not_mem_nil member).elim
    settled := .nil }

namespace Reflects

variable (fresh : unit.HasBlankPageTable start) (reflects : unit.Reflects start history memory)

include fresh reflects

theorem hasPageTable : unit.HasPageTable memory where
  exist index within := by
    rw [reflects.slots]
    exact fresh.exist index within
  distinct index other within inside same := by
    rw [reflects.slots, reflects.slots] at same
    exact fresh.distinct index other within inside same

theorem segments_rewrites {places : List PageIndex} (rewrites : unit.Rewrites memory places kept)
    (inside : ∀ place ∈ places, unit.InTable place) (address : VirtualAddress)
    (reached : address.segment.toNat ≤ unit.segmentLimit.toNat) :
    unit.descriptorOf kept address = unit.descriptorOf start address := by
  rw [← reflects.segments address reached]
  refine congrArg SegmentDescriptor.ofWord (rewrites.others _ fun index member => ?_)
  rw [reflects.slots, reflects.slots]
  exact fresh.apart _ reached index (inside index member)

/-- One more event, which has rewritten some entries. No page has left its place, and the history
still says what the entries are. -/
theorem advance {event : PageEvent} {places : List PageIndex}
    (rewrites : unit.Rewrites memory places kept) (inside : ∀ place ∈ places, unit.InTable place)
    (chained : unit.Chained kept)
    (still : ∀ index identifier, unit.InTable index →
      (unit.entryAt memory index).Carries identifier → (unit.entryAt kept index).Carries identifier)
    (recalls : ∀ asid page index, page.toNat < 2 ^ 22 → unit.InTable index →
      (unit.entryAt kept index).Carries (pageIdentifier asid page) →
        unit.Recalls start (history ++ [event]) asid page index (unit.entryAt kept index))
    (own : ∀ asid page frame index, event = .entered asid page frame (some index) →
      unit.InTable index ∧ (unit.entryAt kept index).Carries (pageIdentifier asid page))
    (settles : ∀ earlier ∈ history, earlier.Settles event) :
    unit.Reflects start (history ++ [event]) kept where
  slots address := (rewrites.slots address).trans (reflects.slots address)
  segments := reflects.segments_rewrites fresh rewrites inside
  chained := chained
  recalls := recalls
  carries asid page frame index member := by
    rcases List.mem_append.mp member with before | now
    · obtain ⟨within, carries⟩ := reflects.carries asid page frame index before
      exact ⟨within, still index _ within carries⟩
    · exact own asid page frame index (List.mem_singleton.mp now).symm
  settled := List.pairwise_append.mpr ⟨reflects.settled, List.pairwise_singleton _ _,
    by simpa using settles⟩

theorem failed {event : PageEvent} (elsewhere : ∀ asid page, ¬ event.Enters asid page)
    (untouched : ∀ asid page modes, ¬ event.Accesses unit start asid page modes)
    (settles : ∀ earlier ∈ history, earlier.Settles event) :
    unit.Reflects start (history ++ [event]) memory := by
  refine reflects.advance fresh .refl (by simp) reflects.chained (fun _ _ _ => id) ?_ ?_ settles
  · intro asid page index small within carries
    exact (reflects.recalls asid page index small within carries).unconcerned (elsewhere asid page)
      (untouched asid page)
  · intro asid page frame index now
    exact (elsewhere asid page ⟨frame, index, now⟩).elim

omit fresh in
/-- The history of the page that has just been entered begins anew; those of the others go on. -/
theorem recalls_entered {asid : BitVec 16} {page frame : HalfWord} {passed : List PageIndex}
    {index : PageIndex} (small : page.toNat < 2 ^ 22)
    (enters : unit.Enters memory asid page frame passed index kept) {other : BitVec 16}
    {more : HalfWord} {place : PageIndex} (fits : more.toNat < 2 ^ 22) (within : unit.InTable place)
    (carried : (unit.entryAt kept place).Carries (pageIdentifier other more)) :
    unit.Recalls start (history ++ [.entered asid page frame (some index)]) other more place
      (unit.entryAt kept place) := by
  have chained := reflects.chained.enters small enters
  by_cases same : place = index
  · subst same
    obtain ⟨rfl, rfl⟩ := pageIdentifier_inj fits small (carried.inj enters.carries)
    rw [enters.entry]
    exact ⟨history, frame, [], rfl, by simp, rfl, by simp [freshEntry], by simp [freshEntry]⟩
  · obtain ⟨continues, entry, -⟩ := enters.other within same
    have before := carried
    rw [entry] at before ⊢
    refine (reflects.recalls other more place fits within before).extend ?_ rfl ?_ ?_
    · rintro ⟨_, _, now⟩
      cases now
      exact same (chained.unique within enters.inTable carried enters.carries)
    all_goals
      simp [PageEvent.Accesses]

theorem entered (asid : BitVec 16) {page : HalfWord} (frame : HalfWord)
    (small : page.toNat < 2 ^ 22) :
    unit.Reflects start
      (history ++ [.entered asid page frame ((unit.installPage asid page frame).perform memory).1])
      ((unit.installPage asid page frame).perform memory).2 := by
  -- Where the page is, it could have been entered again.
  have reached {before : HalfWord} {place : PageIndex}
      (member : .entered asid page before (some place) ∈ history) :
      (unit.entryAt memory place).Carries (pageIdentifier asid page) ∧
        unit.Reaches memory asid page place := by
    obtain ⟨within, carries⟩ := reflects.carries asid page before place member
    exact ⟨carries, reflects.chained asid page place small within carries⟩
  rcases (reflects.hasPageTable fresh).installPage asid page frame with
    ⟨same, taken⟩ | ⟨passed, index, found, enters⟩
  · rw [same]
    refine reflects.failed fresh (fun _ _ => ?_) (fun _ _ _ => ?_) fun earlier member => ?_
    · rintro ⟨_, _, same⟩
      cases same
    · rintro ⟨_, _, same, -⟩
      cases same
    · rintro _ _ before place _ _ rfl now
      cases now
      obtain ⟨carries, passed, rest, window, -⟩ := reached member
      exact (taken place (by simp [window]) fun _ => carries.2).elim
  · rw [found]
    refine reflects.advance fresh enters.rewrites enters.inside (reflects.chained.enters small enters)
      (fun place identifier within => enters.still within) ?_ ?_ fun earlier member => ?_
    · intro other more place fits within carried
      exact reflects.recalls_entered small enters fits within carried
    · rintro _ _ _ _ ⟨⟩
      exact ⟨enters.inTable, enters.carries⟩
    · rintro _ _ before place _ _ rfl now
      cases now
      obtain ⟨carries, reaches⟩ := reached member
      rw [enters.index_eq reaches carries]

theorem translated (address : VirtualAddress) (modes : AccessModes) (key : Byte) :
    unit.Reflects start
      (history ++ [.translated address modes
        ((unit.translate address modes key).perform memory).1.1])
      ((unit.translate address modes key).perform memory).2 := by
  have prescribed := unit.prescribes_translate memory address modes key
  generalize (unit.translate address modes key).perform memory = result at prescribed ⊢
  have settles (outcome : Except TranslationFault Address) :
      ∀ earlier ∈ history, earlier.Settles (.translated address modes outcome) := by
    rintro _ _ _ _ _ _ _ _ _ now
    cases now
  have elsewhere (outcome : Except TranslationFault Address) (asid : BitVec 16) (page : HalfWord) :
      ¬ (PageEvent.translated address modes outcome).Enters asid page := by
    rintro ⟨_, _, now⟩
    cases now
  -- Only a translation that succeeds writes, and what it writes is the mark of one entry.
  cases prescribed with
  | success below named allowed index found =>
    have table := reflects.hasPageTable fresh
    have within := found.inTable
    have carried := found.carries
    have small := unit.toNat_pageOf_lt below
    have same := reflects.segments address (Nat.le_of_not_lt fun beyond => named (.inr (.inl beyond)))
    rw [same] at carried
    refine reflects.advance fresh (unit.rewrites_marked memory index modes) (by simpa using within)
      (reflects.chained.marked table within modes)
      (fun place identifier inside => (table.carries_marked within inside modes).mpr) ?_ ?_
      (settles _)
    · intro asid page place fits inside carries
      rw [table.carries_marked within inside modes] at carries
      rw [table.entryAt_marked within inside modes]
      split
      -- The marked entry belongs to the page that was translated, for no other page is found there.
      · next here =>
        subst here
        obtain ⟨rfl, rfl⟩ := pageIdentifier_inj small fits (carried.inj carries)
        exact (reflects.recalls _ _ place small within carried).accessed rfl rfl
      · next away =>
        refine (reflects.recalls asid page place fits inside carries).unconcerned
          (elsewhere _ asid page) ?_
        rintro _ ⟨_, _, now, rfl, rfl⟩
        cases now
        exact away (reflects.chained.unique inside within carries carried)
    · rintro _ _ _ _ ⟨⟩
  | _ =>
    refine reflects.failed fresh (elsewhere _) (fun _ _ _ => ?_) (settles _)
    rintro ⟨_, _, now, -⟩
    cases now

end Reflects

end TranslationUnit

/-! ## Many calls -/

/-- The registers differ in what translations leave behind alone. -/
def TranslationUnit.SharesTables (unit left : TranslationUnit) : Prop :=
  ∃ untranslatable executePrivilege, left = { unit with untranslatable, executePrivilege }

namespace TranslationUnit.SharesTables

variable {unit left : TranslationUnit} (alike : unit.SharesTables left)

include alike

theorem findSlot_eq (identifier : BitVec 38) (places : List PageIndex) :
    left.findSlot identifier places = unit.findSlot identifier places := by
  obtain ⟨_, _, rfl⟩ := alike
  induction places with
  | nil => rfl
  | cons index rest ih =>
    unfold findSlot
    rw [ih]
    rfl

theorem passOver_eq (places : List PageIndex) : left.passOver places = unit.passOver places := by
  obtain ⟨_, _, rfl⟩ := alike
  induction places with
  | nil => rfl
  | cons index rest ih =>
    unfold passOver
    rw [ih]
    rfl

theorem installPage_eq (asid : BitVec 16) (page frame : HalfWord) :
    left.installPage asid page frame = unit.installPage asid page frame := by
  unfold installPage
  simp only [alike.findSlot_eq, alike.passOver_eq]
  obtain ⟨_, _, rfl⟩ := alike
  rfl

theorem locate_eq (address : VirtualAddress) (modes : AccessModes) (key : Byte) :
    left.locate address modes key = unit.locate address modes key := by
  obtain ⟨_, _, rfl⟩ := alike
  unfold locate findPage
  simp only [findEntry_tracing]
  rfl

theorem faulted (address : VirtualAddress) : unit.SharesTables (left.faulted address) := by
  obtain ⟨_, privilege, rfl⟩ := alike
  exact ⟨address, privilege, rfl⟩

theorem accessed (modes : AccessModes) (privilege : ExecutePrivilege) :
    unit.SharesTables (left.accessed modes privilege) := by
  obtain ⟨untranslatable, _, rfl⟩ := alike
  unfold TranslationUnit.accessed
  split
  · exact ⟨untranslatable, privilege, rfl⟩
  · exact ⟨untranslatable, _, rfl⟩

end TranslationUnit.SharesTables

namespace TranslationUnit.Reflects

variable [Bus μ] [SlottedBus μ] {unit left : TranslationUnit} {start memory : μ}
  {history : List PageEvent}

theorem carryOut (fresh : unit.HasBlankPageTable start)
    (reflects : unit.Reflects start history memory) (alike : unit.SharesTables left)
    {call : PageCall} (proper : call.Proper) :
    unit.Reflects start (history ++ [((call.carryOut left).perform memory).1.1])
        ((call.carryOut left).perform memory).2 ∧
      unit.SharesTables ((call.carryOut left).perform memory).1.2 := by
  cases call with
  | enter asid page frame =>
    rw [PageCall.carryOut, alike.installPage_eq, Activity.perform_bind]
    exact ⟨reflects.entered fresh asid frame proper, alike⟩
  | translate address modes key =>
    have next := reflects.translated fresh address modes key
    rw [translate, Activity.perform_bind] at next
    rw [PageCall.carryOut, translate, alike.locate_eq, Activity.perform_bind, Activity.perform_bind]
    cases outcome : ((unit.locate address modes key).perform memory).1 with
    | error fault =>
      rw [outcome] at next
      exact ⟨next, alike.faulted address⟩
    | ok found =>
      rw [outcome] at next
      exact ⟨next, alike.accessed modes found.2⟩

theorem carryOutAll (fresh : unit.HasBlankPageTable start)
    (reflects : unit.Reflects start history memory) (alike : unit.SharesTables left)
    {calls : List PageCall} (proper : ∀ call ∈ calls, call.Proper) :
    unit.Reflects start (history ++ ((PageCall.carryOutAll left calls).perform memory).1.1)
      ((PageCall.carryOutAll left calls).perform memory).2 := by
  induction calls generalizing left memory history with
  | nil =>
    rw [PageCall.carryOutAll, Activity.perform_pure, List.append_nil]
    exact reflects
  | cons call rest ih =>
    obtain ⟨first, others⟩ := List.forall_mem_cons.mp proper
    obtain ⟨next, still⟩ := reflects.carryOut fresh alike first
    have all := ih next still others
    rw [List.append_assoc, List.singleton_append] at all
    rw [PageCall.carryOutAll, Activity.perform_bind]
    dsimp only
    rw [Activity.perform_bind]
    exact all

end TranslationUnit.Reflects

/-! ## The map -/

namespace TranslationUnit

section

variable [Bus μ] [SlottedBus μ] {unit : TranslationUnit} {start kept : μ}

variable (unit) in
/-- The page table maps pages as a history from a blank one says. A search finds the pages that
were entered, each where it was entered and as the history recalls it. -/
structure MapsPages (start : μ) (events : List PageEvent) (kept : μ) : Prop where
  finds : ∀ asid page, page.toNat < 2 ^ 22 →
    ((unit.entryOf kept asid page).isSome = true ↔ ∃ event ∈ events, event.Enters asid page)
  recalls : ∀ asid page index entry, page.toNat < 2 ^ 22 →
    unit.entryOf kept asid page = some (index, entry) →
      entry = unit.entryAt kept index ∧ unit.Recalls start events asid page index entry
  unique : ∀ identifier index other, unit.InTable index → unit.InTable other →
    (unit.entryAt kept index).Carries identifier → (unit.entryAt kept other).Carries identifier →
      index = other
  settled : events.Pairwise PageEvent.Settles

theorem Reflects.mapsPages {events : List PageEvent} (reflects : unit.Reflects start events kept) :
    unit.MapsPages start events kept where
  finds asid page small := by
    rw [Option.isSome_iff_exists]
    constructor
    · rintro ⟨⟨index, entry⟩, found⟩
      obtain ⟨within, carries, -⟩ := (reflects.chained.entryOf_eq_some_iff small).mp found
      obtain ⟨earlier, frame, later, rfl, -⟩ := reflects.recalls asid page index small within carries
      exact ⟨_, by simp, frame, index, rfl⟩
    · rintro ⟨_, member, frame, index, rfl⟩
      obtain ⟨within, carries⟩ := reflects.carries asid page frame index member
      exact ⟨_, (reflects.chained.entryOf_eq_some_iff small).mpr ⟨within, carries, rfl⟩⟩
  recalls asid page index entry small found := by
    obtain ⟨within, carries, rfl⟩ := (reflects.chained.entryOf_eq_some_iff small).mp found
    exact ⟨rfl, reflects.recalls asid page index small within carries⟩
  unique identifier index other within inside := reflects.chained.unique within inside
  settled := reflects.settled

/-- Whatever pages are entered in a blank page table and whatever addresses are translated through
it, it is a map of the pages that have been entered. -/
theorem page_table_maps (fresh : unit.HasBlankPageTable start) {calls : List PageCall}
    (proper : ∀ call ∈ calls, call.Proper) :
    unit.MapsPages start ((PageCall.carryOutAll unit calls).perform start).1.1
      ((PageCall.carryOutAll unit calls).perform start).2 :=
  (fresh.reflects.carryOutAll fresh ⟨_, _, rfl⟩ proper).mapsPages

end

/-! ## Two pages with one hash -/

theorem wordIndex_pageEntryAddress (unit : TranslationUnit) (index : PageIndex) :
    wordIndex (unit.pageEntryAddress index) = unit.pageTable.toNat / 8 + index.toNat := by
  have table := unit.pageTable.isLt
  have place := index.isLt
  rw [wordIndex_eq, pageEntryAddress, BitVec.toNat_add, BitVec.toNat_mul,
    BitVec.toNat_setWidth_of_le (by decide), BitVec.toNat_setWidth_of_le (by decide)]
  change (_ + _ * 8 % 2 ^ 64) % 2 ^ 64 / 8 = _
  omega

end TranslationUnit

def sharedUnit : TranslationUnit := { TranslationUnit.initial with pageTable := 0x1000 }

def sharedMemory : CyclicMemory := ⟨4096, WordStore.empty.set 0 0x6ABB000000000000⟩

/-- Both pages hash to the first entry. The second one is passed to the next, and entered again
with another frame. -/
def sharedCalls : List PageCall :=
  [.enter 0 0 8, .enter 1 1 9, .translate ⟨11, 0, 0x10⟩ .forWrite 0, .enter 1 1 10]

theorem sharedUnit_blank : sharedUnit.HasBlankPageTable sharedMemory := by
  have place (index : PageIndex) (within : sharedUnit.InTable index) :
      index.toNat < 512 ∧
        sharedMemory.slot (sharedUnit.pageEntryAddress index) = 512 + index.toNat := by
    have small : index.toNat < 512 := within
    refine ⟨small, ?_⟩
    rw [CyclicMemory.slot, TranslationUnit.wordIndex_pageEntryAddress]
    change (512 + index.toNat) % 4096 = _
    omega
  exact {
    exist := fun _ _ missing => by cases missing
    distinct := fun index other within inside same => by
      have slots := Option.some.inj same
      rw [(place index within).2, (place other inside).2] at slots
      exact BitVec.eq_of_toNat_eq (by omega)
    blank := fun index within => by
      change sharedMemory.store.get (sharedMemory.slot (sharedUnit.pageEntryAddress index)) = 0
      rw [(place index within).2, sharedMemory, WordStore.get_set, if_neg (by omega),
        WordStore.get_empty]
    apart := fun segment reached index within same => by
      have first : segment = 0 := Nat.le_zero.mp reached
      subst first
      have slots := Option.some.inj same
      rw [(place index within).2] at slots
      have segments : sharedMemory.slot (sharedUnit.segmentEntryAddress 0) = 0 := by decide
      omega }

theorem sharedCalls_mapped :
    sharedUnit.HasBlankPageTable sharedMemory ∧ (∀ call ∈ sharedCalls, call.Proper) ∧
      sharedUnit.MapsPages sharedMemory
        ((PageCall.carryOutAll sharedUnit sharedCalls).perform sharedMemory).1.1
        ((PageCall.carryOutAll sharedUnit sharedCalls).perform sharedMemory).2 ∧
      ((PageCall.carryOutAll sharedUnit sharedCalls).perform sharedMemory).1.1 =
        [.entered 0 0 8 (some 0), .entered 1 1 9 (some 1),
          .translated ⟨11, 0, 0x10⟩ .forWrite (.ok 0x1010), .entered 1 1 10 (some 1)] := by
  have proper : ∀ call ∈ sharedCalls, call.Proper := by
    simp [sharedCalls, PageCall.Proper]
  exact ⟨sharedUnit_blank, proper, TranslationUnit.page_table_maps sharedUnit_blank proper,
    by decide +kernel⟩

def wideFrame : PageCall := .enter 0 0 0x400000

/-- The entry of the page has only the bits of the frame number that fit. -/
theorem wideFrame_truncated :
    sharedUnit.HasBlankPageTable sharedMemory ∧ (∀ call ∈ [wideFrame], call.Proper) ∧
      let (carried, kept) := (PageCall.carryOutAll sharedUnit [wideFrame]).perform sharedMemory
      carried.1 = [.entered 0 0 0x400000 (some 0)] ∧
        ∃ entry, sharedUnit.entryOf kept 0 0 = some (0, entry) ∧ entry.frame ≠ 0x400000 := by
  have proper : ∀ call ∈ [wideFrame], call.Proper := by simp [wideFrame, PageCall.Proper]
  have found : sharedUnit.entryOf
      ((PageCall.carryOutAll sharedUnit [wideFrame]).perform sharedMemory).2 0 0 =
        some (0, ⟨true, false, false, false, 0, 0⟩) := by decide +kernel
  exact ⟨sharedUnit_blank, proper, by decide +kernel, _, found, by decide⟩

end Mainframe
