import Mainframe.Proofs.PageSearch

/-! The page table as a family of words, one for each place. Entering a page changes the entry at
its place, lets searches go on past the entries before it in the window, and leaves all else in
memory as it was. -/

set_option autoImplicit false

namespace Mainframe

variable {μ : Type}

namespace PageEntry

theorem ofWord_or_continueBit (word : Word) :
    ofWord (word ||| TranslationUnit.continueBit) = { ofWord word with continues := true } := by
  have bit : TranslationUnit.continueBit = 0x4000000000000000 := rfl
  rw [bit]
  apply PageEntry.ext <;> simp [ofWord, BitVec.extractLsb'_or]

theorem ofWord_toWord (entry : PageEntry) :
    ofWord entry.toWord = { entry with
      identifier := (entry.identifier.setWidth 38).setWidth 64
      frame := (entry.frame.setWidth 22).setWidth 32 } := by
  have flag (value : Bool) : (BitVec.ofBool value).getLsbD 0 = value := by cases value <;> rfl
  apply PageEntry.ext
  · simp only [ofWord, toWord, BitVec.getLsbD_append]
    exact flag entry.valid
  · simp only [ofWord, toWord, BitVec.getLsbD_append]
    exact flag entry.continues
  · simp only [ofWord, toWord, BitVec.getLsbD_append]
    exact flag entry.used
  · simp only [ofWord, toWord, BitVec.getLsbD_append]
    exact flag entry.modified
  all_goals
    ext bit inside
    simp only [ofWord, toWord, BitVec.getElem_setWidth, BitVec.getLsbD_append,
      BitVec.getLsbD_extractLsb', BitVec.getLsbD_setWidth]
    grind

end PageEntry

namespace TranslationUnit

variable [Bus μ] [SlottedBus μ] (unit : TranslationUnit)

/-! ## Writing entries -/

/-- The entries of the page table are words that exist and differ from each other. -/
structure HasPageTable (memory : μ) : Prop where
  exist : ∀ index, unit.InTable index →
    SlottedBus.slot memory (unit.pageEntryAddress index) ≠ none
  distinct : ∀ index other, unit.InTable index → unit.InTable other →
    SlottedBus.slot memory (unit.pageEntryAddress index) =
      SlottedBus.slot memory (unit.pageEntryAddress other) → index = other

/-- The second memory is the first with the entries at some places written anew. -/
structure Rewrites (memory : μ) (places : List PageIndex) (kept : μ) : Prop where
  slots : ∀ address, SlottedBus.slot kept address = SlottedBus.slot memory address
  others : ∀ address, (∀ index ∈ places,
      SlottedBus.slot memory address ≠ SlottedBus.slot memory (unit.pageEntryAddress index)) →
    Bus.readWord kept address = Bus.readWord memory address

variable {unit} {memory kept last : μ} {places more : List PageIndex}

namespace Rewrites

theorem refl : unit.Rewrites memory [] memory := ⟨fun _ => rfl, fun _ _ => rfl⟩

theorem writeWord (index : PageIndex) (word : Word) :
    unit.Rewrites memory [index] (Bus.writeWord memory (unit.pageEntryAddress index) word) where
  slots other := SlottedBus.slot_writeWord memory _ other word
  others address apart := by
    rw [SlottedBus.readWord_writeWord, if_neg]
    exact fun same => apart index List.mem_cons_self same.1

theorem trans (first : unit.Rewrites memory places kept) (second : unit.Rewrites kept more last) :
    unit.Rewrites memory (places ++ more) last where
  slots address := (second.slots address).trans (first.slots address)
  others address apart := by
    rw [second.others address, first.others address]
    · exact fun index member => apart index (List.mem_append_left _ member)
    · intro index member
      rw [first.slots, first.slots]
      exact apart index (List.mem_append_right _ member)

theorem hasPageTable (rewrites : unit.Rewrites memory places kept)
    (table : unit.HasPageTable memory) : unit.HasPageTable kept where
  exist index within := by
    rw [rewrites.slots]
    exact table.exist index within
  distinct index other within again same := by
    rw [rewrites.slots, rewrites.slots] at same
    exact table.distinct index other within again same

end Rewrites

theorem HasPageTable.entryAt_writeWord (table : unit.HasPageTable memory) {index other : PageIndex}
    (within : unit.InTable index) (again : unit.InTable other) (word : Word) :
    unit.entryAt (Bus.writeWord memory (unit.pageEntryAddress index) word) other =
      if other = index then .ofWord word else unit.entryAt memory other := by
  unfold entryAt
  rw [SlottedBus.readWord_writeWord]
  by_cases same : other = index
  · subst same
    rw [if_pos ⟨rfl, table.exist other again⟩, if_pos rfl]
  · rw [if_neg fun slots => same (table.distinct other index again within slots.1), if_neg same]

/-! ## Entering a page -/

theorem HasPageTable.passOver (table : unit.HasPageTable memory)
    (within : ∀ place ∈ places, unit.InTable place) :
    unit.Rewrites memory places ((unit.passOver places).perform memory).2 ∧
      ∀ index, unit.InTable index →
        unit.entryAt ((unit.passOver places).perform memory).2 index =
          if index ∈ places then { unit.entryAt memory index with continues := true }
          else unit.entryAt memory index := by
  induction places generalizing memory with
  | nil => exact ⟨.refl, fun _ _ => rfl⟩
  | cons place rest ih =>
    obtain ⟨here, others⟩ := List.forall_mem_cons.mp within
    have first : unit.Rewrites memory [place] (Bus.writeWord memory (unit.pageEntryAddress place)
      (Bus.readWord memory (unit.pageEntryAddress place) ||| continueBit)) := .writeWord place _
    obtain ⟨second, entries⟩ := ih (first.hasPageTable table) others
    refine ⟨first.trans second, fun index inside => ?_⟩
    refine (entries index inside).trans ?_
    rw [table.entryAt_writeWord here inside, PageEntry.ofWord_or_continueBit]
    by_cases same : index = place
    · subst same
      simp [entryAt]
    · simp [same]

variable (unit) in
/-- The entry of a page when it has just been entered at a place. Searches that went on past the
place still do. -/
def freshEntry (memory : μ) (index : PageIndex) (asid : BitVec 16) (page frame : HalfWord) :
    PageEntry where
  valid := true
  continues := (unit.entryAt memory index).continues
  used := false
  modified := false
  identifier := (pageIdentifier asid page).setWidth 64
  frame := (frame.setWidth 22).setWidth 32

variable (unit) in
/-- The second memory is the first with a page entered at a place, past others in its window. -/
structure Enters (memory : μ) (asid : BitVec 16) (page frame : HalfWord) (passed : List PageIndex)
    (index : PageIndex) (kept : μ) : Prop where
  window : ∃ after, unit.window asid page = passed ++ index :: after
  taken : ∀ place ∈ passed, ¬ unit.Open memory (pageIdentifier asid page) place
  free : unit.Open memory (pageIdentifier asid page) index
  rewrites : unit.Rewrites memory (passed ++ [index]) kept
  entries : ∀ place, unit.InTable place →
    unit.entryAt kept place =
      if place = index then unit.freshEntry memory index asid page frame
      else if place ∈ passed then { unit.entryAt memory place with continues := true }
      else unit.entryAt memory place

omit [SlottedBus μ] in
theorem ofWord_freshEntry (index : PageIndex) (asid : BitVec 16) (page frame : HalfWord) :
    PageEntry.ofWord (unit.freshEntry memory index asid page frame).toWord =
      unit.freshEntry memory index asid page frame := by
  have narrow {width wider : Nat} (field : BitVec width) (fits : width ≤ wider) :
      (field.setWidth wider).setWidth width = field := by
    rw [BitVec.setWidth_setWidth_of_le _ fits, BitVec.setWidth_eq]
  rw [PageEntry.ofWord_toWord, PageEntry.mk.injEq]
  refine ⟨rfl, rfl, rfl, rfl, ?_, ?_⟩
  · exact congrArg (BitVec.setWidth 64) (narrow (pageIdentifier asid page) (by decide))
  · exact congrArg (BitVec.setWidth 32) (narrow (frame.setWidth 22) (by decide))

/-- A page is entered at the first open place of its window. Where none is open, nothing is done. -/
theorem HasPageTable.installPage (table : unit.HasPageTable memory) (asid : BitVec 16)
    (page frame : HalfWord) :
    ((unit.installPage asid page frame).perform memory = (none, memory) ∧
      ∀ place ∈ unit.window asid page, ¬ unit.Open memory (pageIdentifier asid page) place) ∨
    ∃ passed index, ((unit.installPage asid page frame).perform memory).1 = some index ∧
      unit.Enters memory asid page frame passed index
        ((unit.installPage asid page frame).perform memory).2 := by
  have searching := findSlot_reads unit (pageIdentifier asid page) (unit.window asid page)
  unfold TranslationUnit.installPage
  rw [Activity.perform_bind, searching.perform_memory]
  rcases findSlot_cases unit memory (pageIdentifier asid page) (unit.window asid page) with
    ⟨full, taken⟩ | ⟨passed, index, after, split, taken, free, found⟩
  · rw [full]
    exact .inl ⟨rfl, taken⟩
  rw [found]
  dsimp only
  rw [Activity.perform_bind, Activity.perform_bind]
  have inside (place : PageIndex) (member : place ∈ passed ++ index :: after) :
      unit.InTable place := .of_window (split ▸ member)
  have here : unit.InTable index := inside index (by simp)
  -- First the places before the open one are made to continue, then the entry is written.
  obtain ⟨passing, entries⟩ := table.passOver fun place member =>
    inside place (List.mem_append_left _ member)
  refine .inr ⟨passed, index, rfl, ⟨after, split⟩, taken, free,
    passing.trans (.writeWord index (unit.freshEntry memory index asid page frame).toWord), ?_⟩
  intro place within
  refine ((passing.hasPageTable table).entryAt_writeWord here within _).trans ?_
  rw [entries place within]
  congr 1
  exact ofWord_freshEntry index asid page frame

end TranslationUnit

end Mainframe
