import Mainframe.Proofs.VirtualWords
import Mainframe.Translation.Install

/-! Searches of the page table. A search for a page goes along the window of the page, from entry
to entry that continues, until it meets one that carries the identifier of the page. -/

set_option autoImplicit false

namespace Mainframe

variable {μ : Type}

theorem PageEntry.ofWord_marked (word : Word) (modes : AccessModes) :
    ofWord (word ||| marks modes) = (ofWord word).touched modes := by
  have outside (start length : Nat) (low : start + length ≤ 60) :
      (marks modes).extractLsb' start length = 0 := by
    ext bit inside
    rw [BitVec.getElem_extractLsb', BitVec.getLsbD_eq_getElem (by omega), getElem_marks]
    simp
    omega
  apply PageEntry.ext
  · simp [ofWord, touched, getElem_marks]
  · simp [ofWord, touched, getElem_marks]
  · simp [ofWord, touched, getElem_marks]
  · simp [ofWord, touched, getElem_marks]
  · simp [ofWord, touched, BitVec.extractLsb'_or, outside]
  · simp [ofWord, touched, BitVec.extractLsb'_or, outside]

def PageEntry.Carries (entry : PageEntry) (identifier : BitVec 38) : Prop :=
  entry.valid = true ∧ entry.identifier = identifier.setWidth 64

instance (entry : PageEntry) (identifier : BitVec 38) : Decidable (entry.Carries identifier) :=
  inferInstanceAs (Decidable (_ ∧ _))

theorem PageEntry.carries_iff {entry : PageEntry} {identifier : BitVec 38} :
    (entry.valid && entry.identifier == identifier.setWidth 64) = true ↔
      entry.Carries identifier := by
  simp [Carries]

theorem PageEntry.Carries.inj {entry : PageEntry} {identifier other : BitVec 38}
    (carries : entry.Carries identifier) (again : entry.Carries other) : identifier = other := by
  have widened := carries.2.symm.trans again.2
  bv_omega

namespace TranslationUnit

variable (unit : TranslationUnit)

/-! ## Windows -/

/-- Where the probe with this number looks in a search for a page. -/
def probedPlace (asid : BitVec 16) (page : HalfWord) (probe : Nat) : PageIndex :=
  (unit.hash asid page + BitVec.ofNat 32 probe) &&& unit.indexMask

theorem window_eq (asid : BitVec 16) (page : HalfWord) :
    unit.window asid page = (List.range longestSearch).map (unit.probedPlace asid page) := rfl

/-- The place is one of those of the page table, which has 512 entries for each unit of its length
and 512 more. -/
def InTable (index : PageIndex) : Prop :=
  index.toNat < (unit.pageTableLength.toNat + 1) * 512

theorem toNat_indexMask : unit.indexMask.toNat = unit.pageTableLength.toNat * 512 + 511 := by
  have length := unit.pageTableLength.isLt
  rw [indexMask, BitVec.toNat_append, BitVec.toNat_setWidth, BitVec.toNat_allOnes,
    Nat.mod_eq_of_lt (by omega), ← Nat.shiftLeft_add_eq_or_of_lt (by decide), Nat.shiftLeft_eq]

theorem pageTableEntries_eq :
    unit.pageTableEntries = (unit.pageTableLength.toNat + 1) * 512 := by
  rw [pageTableEntries, toNat_indexMask]
  omega

variable {unit} in
theorem InTable.of_window {asid : BitVec 16} {page : HalfWord} {index : PageIndex}
    (member : index ∈ unit.window asid page) : unit.InTable index := by
  have bounded : (index &&& unit.indexMask).toNat ≤ unit.indexMask.toNat := by
    rw [BitVec.toNat_and]
    exact Nat.and_le_right
  rw [unit.mem_window member, toNat_indexMask] at bounded
  unfold InTable
  omega

/-! ## Searching for a page -/

section

variable [Bus μ]

def entryAt (memory : μ) (index : PageIndex) : PageEntry :=
  .ofWord (Bus.readWord memory (unit.pageEntryAddress index))

def GoesOn (memory : μ) (identifier : BitVec 38) (index : PageIndex) : Prop :=
  (unit.entryAt memory index).continues = true ∧ ¬ (unit.entryAt memory index).Carries identifier

def entryOf (memory : μ) (asid : BitVec 16) (page : HalfWord) : Option (PageIndex × PageEntry) :=
  ((unit.findEntry (pageIdentifier asid page) (unit.window asid page)).perform memory).1

variable {unit} {memory : μ} {identifier : BitVec 38}

theorem perform_findEntry_cons (index : PageIndex) (rest : List PageIndex) :
    ((unit.findEntry identifier (index :: rest)).perform memory).1 =
      if (unit.entryAt memory index).Carries identifier then
        some (index, unit.entryAt memory index)
      else if (unit.entryAt memory index).continues then
        ((unit.findEntry identifier rest).perform memory).1
      else none := by
  change ((if (unit.entryAt memory index).valid &&
      (unit.entryAt memory index).identifier == identifier.setWidth 64 then _
    else if (unit.entryAt memory index).continues then _ else _ :
      Activity (Option (PageIndex × PageEntry))).perform memory).1 = _
  split
  · next carries =>
    rw [if_pos (PageEntry.carries_iff.mp carries)]
    rfl
  · next other =>
    rw [if_neg (mt PageEntry.carries_iff.mpr other)]
    split <;> rfl

/-- A search finds an entry exactly when it goes on past all entries before it. -/
theorem findEntry_eq_some_iff {places : List PageIndex} {index : PageIndex} {entry : PageEntry} :
    ((unit.findEntry identifier places).perform memory).1 = some (index, entry) ↔
      ∃ before after, places = before ++ index :: after ∧
        (∀ place ∈ before, unit.GoesOn memory identifier place) ∧
        (unit.entryAt memory index).Carries identifier ∧ entry = unit.entryAt memory index := by
  induction places with
  | nil =>
    constructor
    · intro found
      cases found
    · rintro ⟨before, after, split, -⟩
      simp at split
  | cons place rest ih =>
    -- The search stops at the first place that carries the identifier or does not continue.
    rw [perform_findEntry_cons]
    constructor
    · intro found
      split at found
      · next carries =>
        cases found
        exact ⟨[], rest, rfl, by simp, carries, rfl⟩
      next other =>
      split at found
      · next continues =>
        obtain ⟨before, after, rfl, goesOn, carries, same⟩ := ih.mp found
        exact ⟨place :: before, after, rfl,
          List.forall_mem_cons.mpr ⟨⟨continues, other⟩, goesOn⟩, carries, same⟩
      · cases found
    · rintro ⟨before, after, split, goesOn, carries, rfl⟩
      cases before with
      | nil =>
        obtain ⟨rfl, rfl⟩ := List.cons.inj split
        rw [if_pos carries]
      | cons first before =>
        obtain ⟨rfl, rfl⟩ := List.cons.inj split
        obtain ⟨⟨continues, other⟩, goesOn⟩ := List.forall_mem_cons.mp goesOn
        rw [if_neg other, if_pos continues]
        exact ih.mpr ⟨before, after, rfl, goesOn, carries, rfl⟩

/-! ## Searching for a place to enter a page -/

/-- A page with the identifier may be entered at a place: the entry there is free, or is that of
the page already. -/
def Open (memory : μ) (identifier : BitVec 38) (index : PageIndex) : Prop :=
  (unit.entryAt memory index).valid = true →
    (unit.entryAt memory index).identifier = identifier.setWidth 64

theorem findSlot_reads (unit : TranslationUnit) (identifier : BitVec 38)
    (places : List PageIndex) : (unit.findSlot identifier places).OnlyReads := by
  induction places with
  | nil => exact .pure _
  | cons index rest ih =>
    refine .bind (.readWord _) fun word => ?_
    dsimp only
    split
    · exact .pure _
    · exact .bind ih fun found => .pure _

theorem perform_findSlot_cons {index : PageIndex} {rest : List PageIndex} :
    (unit.Open memory identifier index →
      ((unit.findSlot identifier (index :: rest)).perform memory).1 =
        some ([], index, unit.entryAt memory index)) ∧
    (¬ unit.Open memory identifier index →
      ((unit.findSlot identifier (index :: rest)).perform memory).1 =
        ((unit.findSlot identifier rest).perform memory).1.map fun (passed, slot) =>
          (index :: passed, slot)) := by
  -- The search for a place tests validity and identifier in one condition.
  have branches : ((unit.findSlot identifier (index :: rest)).perform memory).1 =
      if !(unit.entryAt memory index).valid ||
          (unit.entryAt memory index).identifier == identifier.setWidth 64 then
        some ([], index, unit.entryAt memory index)
      else ((unit.findSlot identifier rest).perform memory).1.map fun (passed, slot) =>
        (index :: passed, slot) := by
    change ((if !(unit.entryAt memory index).valid ||
        (unit.entryAt memory index).identifier == identifier.setWidth 64 then _ else _ :
      Activity (Option (List PageIndex × PageIndex × PageEntry))).perform memory).1 = _
    split
    · rfl
    · rw [Activity.perform_bind]
      rfl
  rw [branches]
  unfold Open
  constructor
  · intro free
    rw [if_pos]
    simpa [← Bool.not_eq_true, imp_iff_not_or] using free
  · intro taken
    rw [if_neg]
    simpa [← Bool.not_eq_true, imp_iff_not_or] using taken

theorem findSlot_cases (unit : TranslationUnit) (memory : μ) (identifier : BitVec 38)
    (places : List PageIndex) :
    (((unit.findSlot identifier places).perform memory).1 = none ∧
      ∀ place ∈ places, ¬ unit.Open memory identifier place) ∨
    ∃ passed index after, places = passed ++ index :: after ∧
      (∀ place ∈ passed, ¬ unit.Open memory identifier place) ∧ unit.Open memory identifier index ∧
      ((unit.findSlot identifier places).perform memory).1 =
        some (passed, index, unit.entryAt memory index) := by
  induction places with
  | nil => exact .inl ⟨rfl, by simp⟩
  | cons place rest ih =>
    by_cases free : unit.Open memory identifier place
    · exact .inr ⟨[], place, rest, rfl, by simp, free, perform_findSlot_cons.1 free⟩
    · rw [perform_findSlot_cons.2 free]
      rcases ih with ⟨none, taken⟩ | ⟨passed, index, after, rfl, taken, free', found⟩
      · rw [none]
        exact .inl ⟨rfl, List.forall_mem_cons.mpr ⟨free, taken⟩⟩
      · rw [found]
        exact .inr ⟨place :: passed, index, after, rfl, List.forall_mem_cons.mpr ⟨free, taken⟩,
          free', rfl⟩

end

end TranslationUnit

end Mainframe
