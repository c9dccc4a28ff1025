import Mainframe.Proofs.PageMap

/-! How far apart two bytes of a page are in real memory. A real address is the address of the frame
with the bits of the offset put into it, so the bits that both have count once. Where the frame
begins at a multiple of the page size there are none, and the page is one block of real memory. -/

set_option autoImplicit false

namespace Mainframe

/-- Bits in common count once when two numbers are put together. -/
theorem or_add_and (left right : Nat) : (left ||| right) + (left &&& right) = left + right := by
  induction left using Nat.strongRecOn generalizing right with
  | ind left ih =>
    by_cases zero : left = 0
    · simp [zero]
    have halves := ih (left / 2) (by omega) (right / 2)
    rw [← Nat.or_div_two, ← Nat.and_div_two] at halves
    have either : (left ||| right) % 2 = (left % 2 ||| right % 2) := Nat.or_mod_two_pow (n := 1)
    have both : (left &&& right) % 2 = (left % 2 &&& right % 2) := Nat.and_mod_two_pow (n := 1)
    have last : (left ||| right) % 2 + (left &&& right) % 2 = left % 2 + right % 2 := by
      rw [either, both]
      rcases Nat.mod_two_eq_zero_or_one left with even | odd <;>
        rcases Nat.mod_two_eq_zero_or_one right with low | high <;> simp [*]
    omega

namespace TranslationUnit

variable {μ : Type} [Bus μ] {unit : TranslationUnit} {memory : μ}

variable (unit) in
/-- The bits that a byte number has within its page and the frame address has as well. -/
def frameOverlap (entry : PageEntry) (byteNumber : HalfWord) : Nat :=
  entry.frameAddress.toNat &&& byteNumber.toNat % unit.pageSize

theorem frameOverlap_of_aligned {entry : PageEntry}
    (aligned : unit.pageSize ∣ entry.frameAddress.toNat) (byteNumber : HalfWord) :
    unit.frameOverlap entry byteNumber = 0 := by
  obtain ⟨frames, start⟩ := aligned
  have inside := Nat.mod_lt byteNumber.toNat unit.pageSize_pos
  unfold frameOverlap
  rw [start]
  rw [pageSize_eq] at inside ⊢
  have joined := or_add_and (2 ^ unit.pageShift * frames) (byteNumber.toNat % 2 ^ unit.pageShift)
  rw [← Nat.two_pow_add_eq_or_of_lt inside frames] at joined
  omega

/-- A translation leads as far behind the start of the frame as the byte is behind the start of its
page, less the bits in common. -/
theorem translate_real {address : VirtualAddress} {modes : AccessModes} {key : Byte}
    {real : Address}
    (translated : ((unit.translate address modes key).perform memory).1.1 = .ok real) :
    ∃ index entry, unit.entryOf memory (unit.descriptorOf memory address).asid
        (unit.pageOf address.byteNumber) = some (index, entry) ∧
      real.toNat + unit.frameOverlap entry address.byteNumber =
        entry.frameAddress.toNat + address.byteNumber.toNat % unit.pageSize := by
  have prescribed := unit.prescribes_translate memory address modes key
  generalize (unit.translate address modes key).perform memory = result at translated prescribed
  cases prescribed with
  | success below named allowed index found =>
    cases translated
    refine ⟨index, unit.entryAt memory index, entryOf_eq_some_iff.mpr ⟨found, rfl⟩, ?_⟩
    have size := unit.pageSize_le
    have offset := Nat.mod_lt address.byteNumber.toNat unit.pageSize_pos
    rw [BitVec.toNat_or, BitVec.toNat_ofNat, Nat.mod_eq_of_lt (by omega)]
    exact or_add_and _ _
  | _ => cases translated

def KeepsDistance (first second : HalfWord) (real other : Address) : Prop :=
  (real.toNat : Int) - other.toNat = first.toNat - second.toNat

instance (first second : HalfWord) (real other : Address) :
    Decidable (KeepsDistance first second real other) := inferInstanceAs (Decidable (_ = _))

/-- Two bytes of a page are as far apart in real memory as in the page exactly when their offsets
have the same bits in common with the frame address. In a frame that begins at a multiple of the
page size this holds of any two, and different bytes have different real addresses. -/
theorem page_contiguous {first second : VirtualAddress} {modes others : AccessModes}
    {key another : Byte} {real other : Address} (segment : first.segment = second.segment)
    (page : unit.pageOf first.byteNumber = unit.pageOf second.byteNumber)
    (translated : ((unit.translate first modes key).perform memory).1.1 = .ok real)
    (again : ((unit.translate second others another).perform memory).1.1 = .ok other) :
    ∃ index entry, unit.entryOf memory (unit.descriptorOf memory first).asid
        (unit.pageOf first.byteNumber) = some (index, entry) ∧
      (KeepsDistance first.byteNumber second.byteNumber real other ↔
        unit.frameOverlap entry first.byteNumber = unit.frameOverlap entry second.byteNumber) ∧
      (unit.pageSize ∣ entry.frameAddress.toNat →
        KeepsDistance first.byteNumber second.byteNumber real other ∧
          (first.byteNumber ≠ second.byteNumber → real ≠ other)) := by
  obtain ⟨index, entry, found, here⟩ := translate_real translated
  obtain ⟨place, same, matched, there⟩ := translate_real again
  have descriptor : unit.descriptorOf memory second = unit.descriptorOf memory first := by
    unfold descriptorOf
    rw [segment]
  rw [descriptor, ← page, found] at matched
  obtain ⟨rfl, rfl⟩ := Prod.mk.inj (Option.some.inj matched)
  -- In one page byte numbers differ as their offsets do.
  have numbers := congrArg BitVec.toNat page
  rw [toNat_pageOf, toNat_pageOf] at numbers
  have before := Nat.div_add_mod first.byteNumber.toNat unit.pageSize
  have after := Nat.div_add_mod second.byteNumber.toNat unit.pageSize
  rw [← numbers] at after
  have distance : KeepsDistance first.byteNumber second.byteNumber real other ↔
      unit.frameOverlap entry first.byteNumber = unit.frameOverlap entry second.byteNumber := by
    unfold KeepsDistance
    omega
  refine ⟨index, entry, found, distance, fun aligned => ?_⟩
  have keeps : KeepsDistance first.byteNumber second.byteNumber real other := by
    rw [distance, frameOverlap_of_aligned aligned, frameOverlap_of_aligned aligned]
  refine ⟨keeps, ?_⟩
  rintro differs rfl
  unfold KeepsDistance at keeps
  exact differs (BitVec.eq_of_toNat_eq (by omega))

end TranslationUnit

/-- Pages of 1024 bytes, twice as long as the unit in which frames are counted. -/
def doubledUnit : TranslationUnit := { sharedUnit with pageSizeMask := 0x7E }

def framedMemory (frame : Word) : CyclicMemory :=
  { sharedMemory with store := sharedMemory.store.set 512 (0x8000000000000000 ||| frame) }

theorem evenFrame_contiguous :
    ((doubledUnit.translate ⟨11, 0, 0x10⟩ .forRead 0).perform (framedMemory 16)).1.1 =
        .ok 0x2010 ∧
      ((doubledUnit.translate ⟨3, 0, 0x310⟩ .forWrite 5).perform (framedMemory 16)).1.1 =
        .ok 0x2310 ∧
      doubledUnit.pageOf 0x10 = doubledUnit.pageOf 0x310 ∧
      TranslationUnit.KeepsDistance 0x10 0x310 0x2010 0x2310 := by
  have segment : (⟨11, 0, 0x10⟩ : VirtualAddress).segment =
      (⟨3, 0, 0x310⟩ : VirtualAddress).segment := rfl
  have page : doubledUnit.pageOf (⟨11, 0, 0x10⟩ : VirtualAddress).byteNumber =
      doubledUnit.pageOf (⟨3, 0, 0x310⟩ : VirtualAddress).byteNumber := by decide
  have first : ((doubledUnit.translate ⟨11, 0, 0x10⟩ .forRead 0).perform
      (framedMemory 16)).1.1 = .ok 0x2010 := by decide +kernel
  have second : ((doubledUnit.translate ⟨3, 0, 0x310⟩ .forWrite 5).perform
      (framedMemory 16)).1.1 = .ok 0x2310 := by decide +kernel
  obtain ⟨index, entry, found, -, block⟩ :=
    TranslationUnit.page_contiguous segment page first second
  have here : doubledUnit.entryOf (framedMemory 16)
      (doubledUnit.descriptorOf (framedMemory 16) ⟨11, 0, 0x10⟩).asid
      (doubledUnit.pageOf 0x10) = some (0, ⟨true, false, false, false, 0, 16⟩) := by
    decide +kernel
  obtain ⟨rfl, rfl⟩ := Prod.mk.inj (Option.some.inj (found.symm.trans here))
  exact ⟨first, second, page, (block (by decide)).1⟩

/-- In a frame that begins in the middle of a page, two bytes of the page have one real address. -/
theorem oddFrame_collides :
    let memory := framedMemory 17
    ((doubledUnit.translate ⟨11, 0, 0⟩ .forRead 0).perform memory).1.1 = .ok 0x2200 ∧
      ((doubledUnit.translate ⟨11, 0, 0x200⟩ .forRead 0).perform memory).1.1 = .ok 0x2200 ∧
      doubledUnit.pageOf 0 = doubledUnit.pageOf 0x200 ∧
      ¬ TranslationUnit.KeepsDistance 0 0x200 0x2200 0x2200 := by
  decide +kernel

end Mainframe
