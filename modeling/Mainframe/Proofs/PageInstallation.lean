import Mainframe.Proofs.PageMap

/-! Entering a page in a page table with any chains in it. The search for the page then finds its
entry, every search that found another page still finds it where it was, and no word outside the
window of the page changes. -/

set_option autoImplicit false

namespace Mainframe

theorem pageIdentifier_eq_iff {asid other : BitVec 16} {page more : HalfWord}
    (fits : more.toNat < 2 ^ 22) :
    pageIdentifier other more = pageIdentifier asid page ↔
      other = asid ∧ more.toNat = page.toNat % 2 ^ 22 := by
  have low : ((page.setWidth 22).setWidth 32).toNat = page.toNat % 2 ^ 22 := by
    rw [BitVec.toNat_setWidth_of_le (by decide), BitVec.toNat_setWidth]
  have small : ((page.setWidth 22).setWidth 32).toNat < 2 ^ 22 := by
    rw [low]
    exact Nat.mod_lt _ (by decide)
  have same : pageIdentifier asid ((page.setWidth 22).setWidth 32) = pageIdentifier asid page := by
    unfold pageIdentifier
    rw [BitVec.setWidth_setWidth_of_le _ (by decide), BitVec.setWidth_eq]
  rw [← same, ← low]
  constructor
  · intro named
    obtain ⟨rfl, rfl⟩ := pageIdentifier_inj fits small named
    exact ⟨rfl, rfl⟩
  · rintro ⟨rfl, number⟩
    rw [BitVec.eq_of_toNat_eq number]

namespace TranslationUnit

variable {μ : Type} [Bus μ] [SlottedBus μ] {unit : TranslationUnit} {memory kept : μ}
  {asid other : BitVec 16} {page more frame : HalfWord} {passed : List PageIndex}
  {index place : PageIndex} {entry : PageEntry}

/-! ## Searches -/

namespace Enters

variable (enters : unit.Enters memory asid page frame passed index kept)

include enters

theorem entryOf_eq :
    unit.entryOf kept asid page = some (index, unit.freshEntry memory index asid page frame) := by
  obtain ⟨after, split⟩ := enters.window
  refine findEntry_eq_some_iff.mpr
    ⟨passed, after, split, fun place member => ?_, enters.carries, enters.entry.symm⟩
  have taken := enters.taken place member
  have within : unit.InTable place := enters.inside place (List.mem_append_left _ member)
  have away : place ≠ index := by
    rintro rfl
    exact taken enters.free
  unfold GoesOn
  rw [enters.entries place within, if_neg away, if_pos member]
  exact ⟨rfl, fun carries => taken fun _ => carries.2⟩

theorem goesOn {identifier : BitVec 38} (differs : identifier ≠ pageIdentifier asid page)
    (within : unit.InTable place) (goesOn : unit.GoesOn memory identifier place) :
    unit.GoesOn kept identifier place := by
  obtain ⟨continues, elsewhere⟩ := goesOn
  unfold GoesOn
  by_cases here : place = index
  · subst here
    rw [enters.entry]
    exact ⟨continues, fun carries => differs (carries.inj ⟨rfl, rfl⟩)⟩
  · obtain ⟨_, entry, still⟩ := enters.other within here
    rw [entry]
    exact ⟨still continues, elsewhere⟩

/-- Another page is found where it was. Its entry can only have become one to go on past. -/
theorem entryOf_other (differs : pageIdentifier other more ≠ pageIdentifier asid page)
    (found : unit.entryOf memory other more = some (place, entry)) :
    ∃ continues, unit.entryOf kept other more = some (place, { entry with continues }) := by
  obtain ⟨before, after, split, goesOn, carries, rfl⟩ := findEntry_eq_some_iff.mp found
  have inside (earlier : PageIndex) (member : earlier ∈ before ++ place :: after) :
      unit.InTable earlier := .of_window (split ▸ member)
  have here : unit.InTable place := inside place (by simp)
  -- The place was not open to the page, as it holds another.
  have away : place ≠ index := by
    rintro rfl
    exact differs (carries.inj ⟨carries.1, enters.free carries.1⟩)
  obtain ⟨continues, entry, -⟩ := enters.other here away
  refine ⟨continues, findEntry_eq_some_iff.mpr
    ⟨before, after, split, fun earlier member => ?_, ?_, entry.symm⟩⟩
  · exact enters.goesOn differs (inside earlier (List.mem_append_left _ member))
      (goesOn earlier member)
  · rw [entry]
    exact carries

theorem readWord_outside {address : Address}
    (outside : ∀ place ∈ unit.window asid page,
      SlottedBus.slot memory address ≠ SlottedBus.slot memory (unit.pageEntryAddress place)) :
    Bus.readWord kept address = Bus.readWord memory address := by
  obtain ⟨after, split⟩ := enters.window
  refine enters.rewrites.others address fun place member => outside place ?_
  rw [split, List.append_cons]
  exact List.mem_append_left after member

end Enters

/-! ## Locality -/

variable (unit) in
/-- The second memory is the first with a page entered at a place, and nothing else done that a
search for another page or a word outside the window of the page could show. -/
structure EntersAlone (memory : μ) (asid : BitVec 16) (page frame : HalfWord) (index : PageIndex)
    (kept : μ) : Prop where
  found : ∃ entry, unit.entryOf kept asid page = some (index, entry) ∧ entry.valid = true ∧
    entry.used = false ∧ entry.modified = false ∧ entry.frame.toNat = frame.toNat % 2 ^ 22
  others : ∀ other more place entry, more.toNat < 2 ^ 22 →
    ¬ (other = asid ∧ more.toNat = page.toNat % 2 ^ 22) →
      unit.entryOf memory other more = some (place, entry) →
        ∃ continues, unit.entryOf kept other more = some (place, { entry with continues })
  untouched : ∀ address,
    (∀ place ∈ unit.window asid page,
      SlottedBus.slot memory address ≠ SlottedBus.slot memory (unit.pageEntryAddress place)) →
        Bus.readWord kept address = Bus.readWord memory address

theorem Enters.alone (enters : unit.Enters memory asid page frame passed index kept) :
    unit.EntersAlone memory asid page frame index kept where
  found := by
    refine ⟨_, enters.entryOf_eq, rfl, rfl, rfl, ?_⟩
    change ((frame.setWidth 22).setWidth 32).toNat = _
    rw [BitVec.toNat_setWidth_of_le (by decide), BitVec.toNat_setWidth]
  others other more place entry fits differs :=
    enters.entryOf_other fun same => differs ((pageIdentifier_eq_iff fits).mp same)
  untouched _ := enters.readWord_outside

/-- Entering a page concerns that page alone. Where it fails, all places of the window are taken
by other pages, and nothing has been written. -/
theorem installPage_local (table : unit.HasPageTable memory) (asid : BitVec 16)
    (page frame : HalfWord) :
    match (unit.installPage asid page frame).perform memory with
    | (some index, kept) => unit.EntersAlone memory asid page frame index kept
    | (none, kept) => kept = memory ∧ ∀ place ∈ unit.window asid page,
        (unit.entryAt memory place).valid = true ∧
          ¬ (unit.entryAt memory place).Carries (pageIdentifier asid page) := by
  rcases table.installPage asid page frame with ⟨full, taken⟩ | ⟨passed, index, found, enters⟩
  · rw [full]
    refine ⟨rfl, fun place member => ?_⟩
    obtain ⟨valid, named⟩ := Classical.not_imp.mp (taken place member)
    exact ⟨valid, fun carries => named carries.2⟩
  · generalize (unit.installPage asid page frame).perform memory = result at found enters
    obtain ⟨_, kept⟩ := result
    cases found
    exact enters.alone

end TranslationUnit

def chainedMemory : CyclicMemory := ((sharedUnit.installPage 0 0 8).perform sharedMemory).2

theorem chainedMemory_hasPageTable : sharedUnit.HasPageTable chainedMemory := by
  have table := sharedUnit_blank.toHasPageTable
  rcases table.installPage 0 0 8 with ⟨same, -⟩ | ⟨_, _, -, enters⟩
  · rw [chainedMemory, same]
    exact table
  · exact enters.rewrites.hasPageTable table

/-- The page hashes to the place that is taken, and is passed to the next. -/
theorem chainedMemory_extended :
    sharedUnit.HasPageTable chainedMemory ∧
      ((sharedUnit.installPage 1 1 9).perform chainedMemory).1 = some 1 ∧
      sharedUnit.EntersAlone chainedMemory 1 1 9 1
        ((sharedUnit.installPage 1 1 9).perform chainedMemory).2 := by
  have placed : ((sharedUnit.installPage 1 1 9).perform chainedMemory).1 = some 1 := by
    decide +kernel
  have alone := TranslationUnit.installPage_local chainedMemory_hasPageTable 1 1 9
  refine ⟨chainedMemory_hasPageTable, placed, ?_⟩
  generalize (sharedUnit.installPage 1 1 9).perform chainedMemory = result at placed alone ⊢
  obtain ⟨_, kept⟩ := result
  cases placed
  exact alone

/-- A page number that an identifier has no room for takes the entry of the page with its low
bits. -/
theorem installPage_displaces :
    sharedUnit.HasPageTable chainedMemory ∧
      sharedUnit.entryOf chainedMemory 0 0 = some (0, ⟨true, false, false, false, 0, 8⟩) ∧
      let (placed, kept) := (sharedUnit.installPage 0 0x400000 9).perform chainedMemory
      placed = some 0 ∧
        sharedUnit.entryOf kept 0 0 = some (0, ⟨true, false, false, false, 0, 9⟩) :=
  ⟨chainedMemory_hasPageTable, by decide +kernel, by decide +kernel⟩

end Mainframe
