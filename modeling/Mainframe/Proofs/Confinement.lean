import Mainframe.Processor.Access
import Mainframe.Proofs.Frames

/-! Where a processor may write. In the history of whatever it does, every word written is either
a mark of use in the page table entry of a translation, or lies in the frame of a page that was
translated for writing before. -/

set_option autoImplicit false

namespace Mainframe

variable {μ : Type}

/-- The processor with another untranslatable pointer and execute privilege, which translations
leave behind. -/
def Processor.tracing (processor : Processor) (untranslatable : VirtualAddress)
    (executePrivilege : ExecutePrivilege) : Processor :=
  { processor with
    translation := { processor.translation with untranslatable, executePrivilege } }

/-- The two differ in what translations leave behind alone. -/
def Processor.Resembles (processor left : Processor) : Prop :=
  ∃ untranslatable privilege, left = processor.tracing untranslatable privilege

namespace Processor.Resembles

variable {first second third : Processor}

theorem refl (processor : Processor) : processor.Resembles processor := ⟨_, _, rfl⟩

theorem trans (before : first.Resembles second) (after : second.Resembles third) :
    first.Resembles third := by
  obtain ⟨_, _, rfl⟩ := before
  obtain ⟨untranslatable, privilege, rfl⟩ := after
  exact ⟨untranslatable, privilege, rfl⟩

end Processor.Resembles

namespace Processor

variable (processor : Processor)

/-- In the course of a history an address was translated with success: its descriptor was read
while memory translated it so, and the real address was reported. -/
def Translated [Bus μ] (history : List (Moment μ)) (address : VirtualAddress)
    (modes : AccessModes) (descriptor : SegmentDescriptor) (lookup : PageLookup) : Prop :=
  (∃ moment ∈ history,
    moment.request =
      .read (processor.translation.segmentEntryAddress address.segment.toNat) ∧
    processor.translation.Translates processor.key moment.memory address modes descriptor lookup) ∧
  ∃ moment ∈ history,
    moment.request = .notify ⟨processor.number, .translated address modes (.ok lookup.address)⟩

/-- The word marks the page table entry of a translation that is reported next. -/
def MarksEntry [Bus μ] (memory : μ) (later : List (Moment μ)) (address : Address)
    (word : Word) : Prop :=
  ∃ place modes descriptor lookup,
    processor.translation.Translates processor.key memory place modes descriptor lookup ∧
    address = lookup.entryAddress ∧
    word = Bus.readWord memory address ||| PageEntry.marks modes ∧
    ∃ next rest, later = next :: rest ∧
      next.request = .notify ⟨processor.number, .translated place modes (.ok lookup.address)⟩

/-- The address lies in the frame of a page that was translated for writing earlier, if that
frame is aligned. -/
def StoresInFrame [Bus μ] (earlier : List (Moment μ)) (address : Address) : Prop :=
  ∃ place modes descriptor lookup,
    processor.Translated earlier place modes descriptor lookup ∧ modes.write = true ∧
    (processor.translation.FrameAligned lookup → processor.translation.InFrame lookup address)

/-- Every word written in the history is a mark of use or lies in a page translated for writing. -/
def Confines [Bus μ] (history : List (Moment μ)) : Prop :=
  ∀ earlier moment later, history = earlier ++ moment :: later →
    ∀ address word, moment.Writes address word →
      processor.MarksEntry moment.memory later address word ∨
        processor.StoresInFrame earlier address

variable {processor} [Bus μ]

theorem Translated.mono {history wider : List (Moment μ)} {address : VirtualAddress}
    {modes : AccessModes} {descriptor : SegmentDescriptor} {lookup : PageLookup}
    (within : ∀ moment ∈ history, moment ∈ wider)
    (translated : processor.Translated history address modes descriptor lookup) :
    processor.Translated wider address modes descriptor lookup := by
  obtain ⟨⟨reading, readIn, read⟩, ⟨report, reportIn, reported⟩⟩ := translated
  exact ⟨⟨reading, within _ readIn, read⟩, ⟨report, within _ reportIn, reported⟩⟩

theorem StoresInFrame.mono {earlier wider : List (Moment μ)} {address : Address}
    (within : ∀ moment ∈ earlier, moment ∈ wider)
    (stores : processor.StoresInFrame earlier address) : processor.StoresInFrame wider address := by
  obtain ⟨place, modes, descriptor, lookup, translated, rest⟩ := stores
  exact ⟨place, modes, descriptor, lookup, translated.mono within, rest⟩

theorem MarksEntry.append {memory : μ} {later : List (Moment μ)} {address : Address} {word : Word}
    (marks : processor.MarksEntry memory later address word) (more : List (Moment μ)) :
    processor.MarksEntry memory (later ++ more) address word := by
  obtain ⟨place, modes, descriptor, lookup, translates, entry, written, next, rest, rfl,
    reported⟩ := marks
  exact ⟨place, modes, descriptor, lookup, translates, entry, written, next, rest ++ more, rfl,
    reported⟩

namespace Confines

theorem of_not_writes {history : List (Moment μ)}
    (silent : ∀ moment ∈ history, ∀ address word, ¬ moment.Writes address word) :
    processor.Confines history := by
  intro earlier moment later split address word writes
  exact absurd writes (silent moment (by simp [split]) address word)

theorem nil : processor.Confines ([] : List (Moment μ)) :=
  of_not_writes fun _ member => (List.not_mem_nil member).elim

theorem notify (memory : μ) (notice : Notice) :
    processor.Confines [⟨memory, .notify notice⟩] := by
  apply of_not_writes
  intro moment member address word
  cases List.mem_singleton.mp member
  exact Moment.not_writes_notify _ _

theorem of_reads {memory : μ} {history : List (Moment μ)}
    (reads : ∀ moment ∈ history, ∃ place, moment = ⟨memory, .read place⟩) :
    processor.Confines history := by
  apply of_not_writes
  intro moment member address word
  obtain ⟨place, rfl⟩ := reads moment member
  exact Moment.not_writes_read _ _

theorem extend {first second : List (Moment μ)} (before : processor.Confines first)
    (after : ∀ middle moment later, second = middle ++ moment :: later →
      ∀ address word, moment.Writes address word →
        processor.MarksEntry moment.memory later address word ∨
          processor.StoresInFrame (first ++ middle) address) :
    processor.Confines (first ++ second) := by
  intro earlier moment later split address word writes
  rcases List.append_eq_append_iff.mp split with
    ⟨middle, rfl, tail⟩ | ⟨_ | ⟨next, middle⟩, head, tail⟩
  · exact after middle moment later tail address word writes
  · -- The moment is the first one of the second history.
    rw [List.append_nil] at head
    subst head
    simpa using after [] moment later tail.symm address word writes
  · -- The moment is in the first history, and more happens after it.
    obtain ⟨rfl, rfl⟩ := List.cons.inj tail
    exact (before earlier moment middle head address word writes).imp_left fun marks =>
      marks.append second

theorem append {first second : List (Moment μ)} (before : processor.Confines first)
    (after : processor.Confines second) : processor.Confines (first ++ second) := by
  apply before.extend
  intro middle moment later split address word writes
  exact (after middle moment later split address word writes).imp_right fun stores =>
    stores.mono fun _ member => List.mem_append_right first member

theorem stores {first second : List (Moment μ)} {place : VirtualAddress} {modes : AccessModes}
    {descriptor : SegmentDescriptor} {lookup : PageLookup} (before : processor.Confines first)
    (translated : processor.Translated first place modes descriptor lookup)
    (writing : modes.write = true)
    (inside : processor.translation.FrameAligned lookup → ∀ moment ∈ second,
      ∀ address word, moment.Writes address word → processor.translation.InFrame lookup address) :
    processor.Confines (first ++ second) := by
  refine before.extend fun middle moment later split address word writes => .inr ?_
  exact ⟨place, modes, descriptor, lookup,
    translated.mono fun _ member => List.mem_append_left middle member, writing,
    fun aligned => inside aligned moment (by simp [split]) address word writes⟩

end Confines

/-! ## What translations leave behind does not matter -/

end Processor

namespace TranslationUnit

variable [Bus μ] (unit : TranslationUnit) (untranslatable : VirtualAddress)
  (executePrivilege : ExecutePrivilege)

theorem findEntry_tracing (identifier : BitVec 38) (places : List PageIndex) :
    ({ unit with untranslatable, executePrivilege } : TranslationUnit).findEntry identifier places =
      unit.findEntry identifier places := by
  induction places with
  | nil => rfl
  | cons index rest ih =>
    unfold findEntry
    rw [ih]
    rfl

theorem pageAt_tracing (memory : μ) (asid : BitVec 16) (byteNumber : HalfWord) :
    ({ unit with untranslatable, executePrivilege } : TranslationUnit).pageAt memory asid
      byteNumber = unit.pageAt memory asid byteNumber := by
  have search := unit.findEntry_tracing untranslatable executePrivilege
  unfold pageAt findPage
  simp only [search]
  rfl

theorem translates_tracing {key : Byte} {memory : μ} {address : VirtualAddress}
    {modes : AccessModes} {descriptor : SegmentDescriptor} {lookup : PageLookup} :
    ({ unit with untranslatable, executePrivilege } : TranslationUnit).Translates key memory
        address modes descriptor lookup ↔
      unit.Translates key memory address modes descriptor lookup := by
  constructor
  · rintro ⟨low, ring, segment, valid, granted, page⟩
    rw [pageAt_tracing] at page
    exact ⟨low, ring, segment, valid, granted, page⟩
  · rintro ⟨low, ring, segment, valid, granted, page⟩
    rw [← pageAt_tracing unit untranslatable executePrivilege] at page
    exact ⟨low, ring, segment, valid, granted, page⟩

end TranslationUnit

theorem Processor.Resembles.confines [Bus μ] {processor left : Processor}
    (alike : processor.Resembles left) {history : List (Moment μ)}
    (confined : left.Confines history) : processor.Confines history := by
  obtain ⟨untranslatable, privilege, rfl⟩ := alike
  intro earlier moment later split address word writes
  rcases confined earlier moment later split address word writes with marks | stores
  · obtain ⟨place, modes, descriptor, lookup, translates, rest⟩ := marks
    exact .inl ⟨place, modes, descriptor, lookup,
      (TranslationUnit.translates_tracing _ _ _).mp translates, rest⟩
  · obtain ⟨place, modes, descriptor, lookup, ⟨⟨reading, member, request, translates⟩, report⟩,
      rest⟩ := stores
    exact .inr ⟨place, modes, descriptor, lookup,
      ⟨⟨reading, member, request, (TranslationUnit.translates_tracing _ _ _).mp translates⟩,
        report⟩, rest⟩

end Mainframe
