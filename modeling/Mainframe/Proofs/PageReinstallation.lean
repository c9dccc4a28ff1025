import Mainframe.Proofs.PageInstallation

/-! Entering a page again that the page table has already. It is entered where it is, unless a free
place comes before that one in its window. Then the free place is taken, and the window has two
entries of the page. -/

set_option autoImplicit false

namespace Mainframe

namespace TranslationUnit

section

variable {μ : Type} [Bus μ] (unit : TranslationUnit)

/-- Of the entries in the window of a page exactly one is a valid entry of the page. -/
def HoldsOnce (memory : μ) (asid : BitVec 16) (page : HalfWord) : Prop :=
  ∃! place, place ∈ unit.window asid page ∧
    (unit.entryAt memory place).Carries (pageIdentifier asid page)

def FilledBefore (memory : μ) (asid : BitVec 16) (page : HalfWord) (index : PageIndex) : Prop :=
  ∀ place ∈ (unit.window asid page).takeWhile (· ≠ index), (unit.entryAt memory place).valid = true

instance (memory : μ) (asid : BitVec 16) (page : HalfWord) (index : PageIndex) :
    Decidable (unit.FilledBefore memory asid page index) :=
  List.decidableBAll _ _

variable {unit} {memory : μ} {asid : BitVec 16} {page : HalfWord} {index : PageIndex}

theorem holdsOnce_of_filter
    (only : (unit.window asid page).filter
      (fun place => (unit.entryAt memory place).Carries (pageIdentifier asid page)) = [index]) :
    unit.HoldsOnce memory asid page := by
  have among (place : PageIndex) : place ∈ unit.window asid page ∧
      (unit.entryAt memory place).Carries (pageIdentifier asid page) ↔ place = index := by
    rw [← List.mem_singleton, ← only, List.mem_filter, decide_eq_true_eq]
  exact ⟨index, (among index).mpr rfl, fun place => (among place).mp⟩

theorem takeWhile_window {before after : List PageIndex}
    (split : unit.window asid page = before ++ index :: after) (first : index ∉ before) :
    (unit.window asid page).takeWhile (· ≠ index) = before := by
  have others : ∀ place ∈ before, decide (place ≠ index) = true := by
    intro place member
    rw [decide_eq_true_eq]
    rintro rfl
    exact first member
  rw [split, List.takeWhile_append_of_pos others, List.takeWhile_cons_of_neg (by simp),
    List.append_nil]

/-- Where no free place comes before an entry that a search finds, the search went past valid
entries alone. -/
theorem reaches_of_found {entry : PageEntry}
    (found : unit.entryOf memory asid page = some (index, entry))
    (filled : unit.FilledBefore memory asid page index) :
    unit.Reaches memory asid page index := by
  obtain ⟨before, after, split, goesOn, carries, -⟩ := findEntry_eq_some_iff.mp found
  have first : index ∉ before := fun member => (goesOn index member).2 carries
  unfold FilledBefore at filled
  rw [takeWhile_window split first] at filled
  exact ⟨before, after, split, fun place member => ⟨filled place member, goesOn place member⟩⟩

namespace Enters

variable [SlottedBus μ] {frame : HalfWord} {passed : List PageIndex} {kept : μ}
  (enters : unit.Enters memory asid page frame passed index kept)

include enters

theorem filledBefore : unit.FilledBefore memory asid page index := by
  obtain ⟨after, split⟩ := enters.window
  unfold FilledBefore
  rw [takeWhile_window split fun member => enters.taken index member enters.free]
  exact fun place member => (Classical.not_imp.mp (enters.taken place member)).1

theorem holdsOnce (once : unit.HoldsOnce memory asid page)
    (carried : (unit.entryAt memory index).Carries (pageIdentifier asid page)) :
    unit.HoldsOnce kept asid page := by
  obtain ⟨after, split⟩ := enters.window
  have here : index ∈ unit.window asid page := by simp [split]
  refine ⟨index, ⟨here, enters.carries⟩, fun place ⟨member, carries⟩ => ?_⟩
  by_contra differs
  obtain ⟨_, entry, -⟩ := enters.other (.of_window member) differs
  rw [entry] at carries
  exact differs (once.unique ⟨member, carries⟩ ⟨here, carried⟩)

end Enters

/-- A page that a search finds can be entered again. It is entered in its place, and has one entry
in its window as before, exactly when no free place comes before its own. -/
theorem installPage_again [SlottedBus μ] (table : unit.HasPageTable memory)
    (once : unit.HoldsOnce memory asid page) {entry : PageEntry}
    (found : unit.entryOf memory asid page = some (index, entry)) (frame : HalfWord) :
    let (placed, kept) := (unit.installPage asid page frame).perform memory
    ∃ place, placed = some place ∧
      (place = index ↔ unit.FilledBefore memory asid page index) ∧
      (unit.HoldsOnce kept asid page ↔ unit.FilledBefore memory asid page index) := by
  obtain ⟨before, after, split, -, carried, -⟩ := findEntry_eq_some_iff.mp found
  have here : index ∈ unit.window asid page := by simp [split]
  rcases table.installPage asid page frame with ⟨-, taken⟩ | ⟨passed, place, placed, enters⟩
  · -- The page could have been entered in its own place.
    exact absurd (fun _ => carried.2) (taken index here)
  generalize (unit.installPage asid page frame).perform memory = result at placed enters
  obtain ⟨_, kept⟩ := result
  have inPlace : place = index ↔ unit.FilledBefore memory asid page index := by
    constructor
    · rintro rfl
      exact enters.filledBefore
    · intro filled
      exact enters.index_eq (reaches_of_found found filled) carried
  refine ⟨place, placed, inPlace, ?_⟩
  rw [← inPlace]
  constructor
  · -- The old entry and the new one carry the page.
    intro still
    obtain ⟨rest, window⟩ := enters.window
    have there : place ∈ unit.window asid page := by simp [window]
    exact still.unique ⟨there, enters.carries⟩ ⟨here, enters.still (.of_window here) carried⟩
  · rintro rfl
    exact enters.holdsOnce once carried

end

end TranslationUnit

/-- A table with two pages of one hash. The search for the second goes on past the first. -/
def pairedMemory : CyclicMemory := ((sharedUnit.installPage 1 1 9).perform chainedMemory).2

/-- The first page has been taken out of the table, and searches still go on past its entry. -/
def holedMemory : CyclicMemory :=
  Bus.writeWord pairedMemory (sharedUnit.pageEntryAddress 0) 0x4000000000000008

theorem pairedMemory_hasPageTable : sharedUnit.HasPageTable pairedMemory := by
  rcases chainedMemory_hasPageTable.installPage 1 1 9 with ⟨same, -⟩ | ⟨_, _, -, enters⟩
  · rw [pairedMemory, same]
    exact chainedMemory_hasPageTable
  · exact enters.rewrites.hasPageTable chainedMemory_hasPageTable

def secondEntry : PageEntry := ⟨true, false, false, false, 0x400001, 9⟩

theorem pairedMemory_holdsOnce : sharedUnit.HoldsOnce pairedMemory 1 1 :=
  TranslationUnit.holdsOnce_of_filter (show _ = [1] by decide +kernel)

theorem pairedMemory_again :
    sharedUnit.HasPageTable pairedMemory ∧ sharedUnit.HoldsOnce pairedMemory 1 1 ∧
      sharedUnit.entryOf pairedMemory 1 1 = some (1, secondEntry) ∧
      let (placed, kept) := (sharedUnit.installPage 1 1 10).perform pairedMemory
      placed = some 1 ∧ sharedUnit.HoldsOnce kept 1 1 := by
  have found : sharedUnit.entryOf pairedMemory 1 1 = some (1, secondEntry) := by decide +kernel
  have filled : sharedUnit.FilledBefore pairedMemory 1 1 1 := by decide +kernel
  obtain ⟨place, placed, inPlace, once⟩ := TranslationUnit.installPage_again
    pairedMemory_hasPageTable pairedMemory_holdsOnce found 10
  rw [inPlace.mpr filled] at placed
  exact ⟨pairedMemory_hasPageTable, pairedMemory_holdsOnce, found, placed, once.mpr filled⟩

/-- Where a free place comes first, the page is entered there, and its old entry stays. -/
theorem holedMemory_twice :
    sharedUnit.HasPageTable holedMemory ∧ sharedUnit.HoldsOnce holedMemory 1 1 ∧
      sharedUnit.entryOf holedMemory 1 1 = some (1, secondEntry) ∧
      let (placed, kept) := (sharedUnit.installPage 1 1 10).perform holedMemory
      placed = some 0 ∧ ¬ sharedUnit.HoldsOnce kept 1 1 := by
  have table : sharedUnit.HasPageTable holedMemory :=
    (TranslationUnit.Rewrites.writeWord 0 _).hasPageTable pairedMemory_hasPageTable
  have once : sharedUnit.HoldsOnce holedMemory 1 1 :=
    TranslationUnit.holdsOnce_of_filter (show _ = [1] by decide +kernel)
  refine ⟨table, once, by decide +kernel, by decide +kernel, fun still => ?_⟩
  have first : 0 ∈ sharedUnit.window 1 1 ∧ (sharedUnit.entryAt
      ((sharedUnit.installPage 1 1 10).perform holedMemory).2 0).Carries (pageIdentifier 1 1) := by
    decide +kernel
  have second : 1 ∈ sharedUnit.window 1 1 ∧ (sharedUnit.entryAt
      ((sharedUnit.installPage 1 1 10).perform holedMemory).2 1).Carries (pageIdentifier 1 1) := by
    decide +kernel
  exact absurd (still.unique first second) (by decide)

end Mainframe
