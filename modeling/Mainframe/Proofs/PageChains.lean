import Mainframe.Proofs.PageTable
import Mainframe.Proofs.TranslationRules

/-! Chains of page table entries. Every entry lies where the search for its page leads, past valid
entries of other pages. Entering a page keeps this so, and marks of use do not matter to it. -/

set_option autoImplicit false

namespace Mainframe

variable {μ : Type}

/-! ## Identifiers -/

theorem toNat_pageIdentifier (asid : BitVec 16) {page : HalfWord} (small : page.toNat < 2 ^ 22) :
    (pageIdentifier asid page).toNat = asid.toNat * 2 ^ 22 + page.toNat := by
  have low : (page.setWidth 22).toNat = page.toNat := by
    rw [BitVec.toNat_setWidth, Nat.mod_eq_of_lt small]
  rw [pageIdentifier, BitVec.toNat_append, ← Nat.shiftLeft_add_eq_or_of_lt (BitVec.isLt _),
    Nat.shiftLeft_eq, low]

theorem pageIdentifier_inj {asid other : BitVec 16} {page more : HalfWord}
    (small : page.toNat < 2 ^ 22) (fits : more.toNat < 2 ^ 22)
    (same : pageIdentifier asid page = pageIdentifier other more) : asid = other ∧ page = more := by
  have numbers := congrArg BitVec.toNat same
  rw [toNat_pageIdentifier asid small, toNat_pageIdentifier other fits] at numbers
  constructor <;> apply BitVec.eq_of_toNat_eq <;> omega

theorem exists_pageIdentifier (identifier : BitVec 38) :
    ∃ asid page, page.toNat < 2 ^ 22 ∧ pageIdentifier asid page = identifier := by
  have small : ((identifier.setWidth 22).setWidth 32).toNat < 2 ^ 22 := by
    rw [BitVec.toNat_setWidth_of_le (by decide)]
    exact BitVec.isLt _
  refine ⟨identifier.extractLsb' 22 16, (identifier.setWidth 22).setWidth 32, small, ?_⟩
  apply BitVec.eq_of_toNat_eq
  rw [toNat_pageIdentifier _ small, BitVec.extractLsb'_toNat, BitVec.toNat_setWidth_of_le (by decide),
    BitVec.toNat_setWidth, Nat.shiftRight_eq_div_pow]
  have bounded := identifier.isLt
  omega

namespace TranslationUnit

variable (unit : TranslationUnit)

/-! ## Chains -/

section

variable [Bus μ]

/-- The search for a page leads to a place, past valid entries of other pages. -/
def Reaches (memory : μ) (asid : BitVec 16) (page : HalfWord) (index : PageIndex) : Prop :=
  ∃ before after, unit.window asid page = before ++ index :: after ∧
    ∀ place ∈ before, (unit.entryAt memory place).valid = true ∧
      unit.GoesOn memory (pageIdentifier asid page) place

/-- The search for a page leads to every entry of the page. -/
def Chained (memory : μ) : Prop :=
  ∀ asid page index, page.toNat < 2 ^ 22 → unit.InTable index →
    (unit.entryAt memory index).Carries (pageIdentifier asid page) →
      unit.Reaches memory asid page index

variable {unit} {memory kept : μ} {asid : BitVec 16} {page : HalfWord} {index other : PageIndex}

theorem split_unique {α : Type} (holds : α → Prop) {before after passed rest : List α}
    {first second : α} (split : before ++ first :: after = passed ++ second :: rest)
    (none : ∀ place ∈ before, ¬ holds place) (here : holds first)
    (neither : ∀ place ∈ passed, ¬ holds place) (there : holds second) :
    before = passed ∧ first = second := by
  induction before generalizing passed with
  | nil =>
    cases passed with
    | nil => exact ⟨rfl, (List.cons.inj split).1⟩
    | cons place _ =>
      obtain rfl : first = place := (List.cons.inj split).1
      exact (neither first List.mem_cons_self here).elim
  | cons place before ih =>
    cases passed with
    | nil =>
      obtain rfl : place = second := (List.cons.inj split).1
      exact (none place List.mem_cons_self there).elim
    | cons other passed =>
      obtain ⟨rfl, rest⟩ := List.cons.inj split
      obtain ⟨rfl, same⟩ := ih rest (List.forall_mem_cons.mp none).2
        (List.forall_mem_cons.mp neither).2
      exact ⟨rfl, same⟩

theorem first_unique {α : Type} (holds : α → Prop) {before after passed rest : List α}
    {first second : α} (split : before ++ first :: after = passed ++ second :: rest)
    (none : ∀ place ∈ before, ¬ holds place) (here : holds first)
    (neither : ∀ place ∈ passed, ¬ holds place) (there : holds second) : first = second :=
  (split_unique holds split none here neither there).2

theorem Reaches.unique (reaches : unit.Reaches memory asid page index)
    (carries : (unit.entryAt memory index).Carries (pageIdentifier asid page))
    (again : unit.Reaches memory asid page other)
    (carried : (unit.entryAt memory other).Carries (pageIdentifier asid page)) : index = other := by
  obtain ⟨before, after, split, passes⟩ := reaches
  obtain ⟨passed, rest, window, goesOn⟩ := again
  exact first_unique (fun place => (unit.entryAt memory place).Carries (pageIdentifier asid page))
    (split.symm.trans window) (fun place member => (passes place member).2.2) carries
    (fun place member => (goesOn place member).2.2) carried

theorem Chained.unique (chained : unit.Chained memory) {identifier : BitVec 38}
    (within : unit.InTable index) (inside : unit.InTable other)
    (carries : (unit.entryAt memory index).Carries identifier)
    (carried : (unit.entryAt memory other).Carries identifier) : index = other := by
  obtain ⟨asid, page, small, rfl⟩ := exists_pageIdentifier identifier
  exact (chained asid page index small within carries).unique carries
    (chained asid page other small inside carried) carried

theorem Chained.entryOf_eq_some_iff (chained : unit.Chained memory) (small : page.toNat < 2 ^ 22)
    {entry : PageEntry} :
    unit.entryOf memory asid page = some (index, entry) ↔
      unit.InTable index ∧ (unit.entryAt memory index).Carries (pageIdentifier asid page) ∧
        entry = unit.entryAt memory index := by
  unfold entryOf
  rw [findEntry_eq_some_iff]
  constructor
  · rintro ⟨before, after, split, -, carries, rfl⟩
    have member : index ∈ unit.window asid page := by simp [split]
    exact ⟨.of_window member, carries, rfl⟩
  · rintro ⟨within, carries, rfl⟩
    obtain ⟨before, after, split, passes⟩ := chained asid page index small within carries
    exact ⟨before, after, split, fun place member => (passes place member).2, carries, rfl⟩

theorem Chained.congr (chained : unit.Chained memory)
    (valid : ∀ index, unit.InTable index →
      (unit.entryAt kept index).valid = (unit.entryAt memory index).valid)
    (continues : ∀ index, unit.InTable index →
      (unit.entryAt kept index).continues = (unit.entryAt memory index).continues)
    (named : ∀ index, unit.InTable index →
      (unit.entryAt kept index).identifier = (unit.entryAt memory index).identifier) :
    unit.Chained kept := by
  intro asid page index small within carries
  unfold PageEntry.Carries at carries
  rw [valid index within, named index within] at carries
  obtain ⟨before, after, split, passes⟩ := chained asid page index small within carries
  refine ⟨before, after, split, fun place member => ?_⟩
  have inside : unit.InTable place := .of_window (split ▸ List.mem_append_left _ member)
  unfold GoesOn PageEntry.Carries
  rw [valid place inside, continues place inside, named place inside]
  exact passes place member

end

variable {unit} [Bus μ] [SlottedBus μ] {memory kept : μ} {asid : BitVec 16} {page frame : HalfWord}
  {passed : List PageIndex} {index : PageIndex}

namespace Enters

variable (enters : unit.Enters memory asid page frame passed index kept)

include enters

theorem inside : ∀ place ∈ passed ++ [index], unit.InTable place := by
  obtain ⟨after, split⟩ := enters.window
  intro place member
  have member : place ∈ unit.window asid page := by
    rw [split, List.append_cons]
    exact List.mem_append_left after member
  exact .of_window member

theorem inTable : unit.InTable index := enters.inside index (by simp)

theorem entry : unit.entryAt kept index = unit.freshEntry memory index asid page frame := by
  rw [enters.entries index enters.inTable, if_pos rfl]

theorem carries : (unit.entryAt kept index).Carries (pageIdentifier asid page) := by
  rw [enters.entry]
  exact ⟨rfl, rfl⟩

theorem other {place : PageIndex} (within : unit.InTable place) (differs : place ≠ index) :
    ∃ continues, unit.entryAt kept place = { unit.entryAt memory place with continues } ∧
      ((unit.entryAt memory place).continues = true → continues = true) := by
  rw [enters.entries place within, if_neg differs]
  split
  · exact ⟨true, rfl, fun _ => rfl⟩
  · exact ⟨_, rfl, id⟩

theorem still {place : PageIndex} (within : unit.InTable place) {identifier : BitVec 38}
    (carried : (unit.entryAt memory place).Carries identifier) :
    (unit.entryAt kept place).Carries identifier := by
  by_cases same : place = index
  · subst same
    rw [enters.entry]
    exact ⟨rfl, (enters.free carried.1).symm.trans carried.2⟩
  · obtain ⟨_, entry, -⟩ := enters.other within same
    rw [entry]
    exact carried

theorem index_eq {place : PageIndex} (reaches : unit.Reaches memory asid page place)
    (carried : (unit.entryAt memory place).Carries (pageIdentifier asid page)) : index = place := by
  obtain ⟨after, split⟩ := enters.window
  obtain ⟨before, rest, window, passes⟩ := reaches
  refine first_unique (unit.Open memory (pageIdentifier asid page)) (split.symm.trans window)
    enters.taken enters.free (fun earlier member isOpen => ?_) fun _ => carried.2
  obtain ⟨valid, -, differs⟩ := passes earlier member
  exact differs ⟨valid, isOpen valid⟩

end Enters

theorem Chained.enters (chained : unit.Chained memory) (small : page.toNat < 2 ^ 22)
    (enters : unit.Enters memory asid page frame passed index kept) : unit.Chained kept := by
  have carries := enters.carries
  intro other more place fits within carried
  by_cases same : place = index
  · -- The search goes past the places that were passed over.
    subst same
    obtain ⟨rfl, rfl⟩ := pageIdentifier_inj fits small (carried.inj carries)
    obtain ⟨after, split⟩ := enters.window
    refine ⟨passed, after, split, fun earlier member => ?_⟩
    have inside : unit.InTable earlier := .of_window (split ▸ List.mem_append_left _ member)
    have taken := enters.taken earlier member
    have differs : earlier ≠ place := by
      rintro rfl
      exact taken enters.free
    unfold GoesOn
    rw [enters.entries earlier inside, if_neg differs, if_pos member]
    obtain ⟨valid, named⟩ := Classical.not_imp.mp taken
    exact ⟨valid, rfl, fun carries => named carries.2⟩
  · -- The search goes past all that it went past before.
    obtain ⟨_, entry, -⟩ := enters.other within same
    rw [entry] at carried
    obtain ⟨before, after, split, passes⟩ := chained other more place fits within carried
    refine ⟨before, after, split, fun earlier member => ?_⟩
    have inside : unit.InTable earlier := .of_window (split ▸ List.mem_append_left _ member)
    obtain ⟨valid, continues, differs⟩ := passes earlier member
    unfold GoesOn
    by_cases here : earlier = index
    · subst here
      rw [enters.entry]
      refine ⟨rfl, continues, fun again => differs ⟨valid, ?_⟩⟩
      exact (enters.free valid).trans again.2
    · obtain ⟨_, entry, still⟩ := enters.other inside here
      rw [entry]
      exact ⟨valid, still continues, differs⟩

/-! ## Marks of use -/

omit [SlottedBus μ] in
theorem Finds.inTable (finds : unit.Finds unit.probedPlace memory asid page index) :
    unit.InTable index := by
  obtain ⟨probe, within, -, -, rfl⟩ := finds
  exact .of_window (List.mem_map_of_mem (List.mem_range.mpr within))

omit [SlottedBus μ] in
theorem Finds.carries (finds : unit.Finds unit.probedPlace memory asid page index) :
    (unit.entryAt memory index).Carries (pageIdentifier asid page) := by
  obtain ⟨probe, -, -, carries, rfl⟩ := finds
  exact carries

variable (unit) in
theorem rewrites_marked (memory : μ) (index : PageIndex) (modes : AccessModes) :
    unit.Rewrites memory [index] (unit.marked memory index modes) := by
  unfold marked
  dsimp only
  split
  · exact ⟨fun _ => rfl, fun _ _ => rfl⟩
  · exact .writeWord index _

theorem HasPageTable.entryAt_marked (table : unit.HasPageTable memory) {other : PageIndex}
    (within : unit.InTable index) (inside : unit.InTable other) (modes : AccessModes) :
    unit.entryAt (unit.marked memory index modes) other =
      if other = index then (unit.entryAt memory index).touched modes
      else unit.entryAt memory other := by
  have touched := PageEntry.ofWord_marked (Bus.readWord memory (unit.pageEntryAddress index)) modes
  unfold marked
  dsimp only
  split
  · next same =>
    split
    · next here =>
      rw [same] at touched
      rw [here]
      exact touched
    · rfl
  · rw [table.entryAt_writeWord within inside, touched]
    rfl

theorem HasPageTable.carries_marked (table : unit.HasPageTable memory) {other : PageIndex}
    (within : unit.InTable index) (inside : unit.InTable other) (modes : AccessModes)
    {identifier : BitVec 38} :
    (unit.entryAt (unit.marked memory index modes) other).Carries identifier ↔
      (unit.entryAt memory other).Carries identifier := by
  rw [table.entryAt_marked within inside]
  split
  · next same =>
    rw [same]
    exact .rfl
  · exact .rfl

theorem Chained.marked (chained : unit.Chained memory) (table : unit.HasPageTable memory)
    (within : unit.InTable index) (modes : AccessModes) :
    unit.Chained (unit.marked memory index modes) := by
  refine chained.congr (fun other inside => ?_) (fun other inside => ?_) fun other inside => ?_
  all_goals
    rw [table.entryAt_marked within inside]
    split
    · next same =>
      rw [same]
      rfl
    · rfl

end TranslationUnit

end Mainframe
