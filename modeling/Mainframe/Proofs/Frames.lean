import Mainframe.Proofs.Lookup

/-! Page frames. An aligned frame holds the bytes of its page in their order, so a piece of a page
that is moved word by word stays in the frame. -/

set_option autoImplicit false

namespace Mainframe

variable {μ : Type}

theorem wordIndex_eq (address : Address) : wordIndex address = address.toNat / 8 := by
  simp [wordIndex, BitVec.toNat_ushiftRight, Nat.shiftRight_eq_div_pow]

/-- The word that an address selects holds one of `count` bytes from a real address on. -/
def Covers (real : Address) (count : Nat) (address : Address) : Prop :=
  8 * wordIndex address < real.toNat + count ∧ real.toNat < 8 * wordIndex address + 8

theorem Covers.self (real : Address) : Covers real 1 real := by
  unfold Covers
  rw [wordIndex_eq]
  omega

theorem Covers.widen {real later : Address} {count fewer : Nat} {address : Address}
    (above : real.toNat ≤ later.toNat) (within : later.toNat + fewer ≤ real.toNat + count)
    (covers : Covers later fewer address) : Covers real count address := by
  unfold Covers at covers ⊢
  omega

namespace TranslationUnit

variable (unit : TranslationUnit)

def FrameAligned (lookup : PageLookup) : Prop :=
  unit.pageSize ∣ lookup.entry.frameAddress.toNat

/-- The word that an address selects lies in the frame of the page. -/
def InFrame (lookup : PageLookup) (address : Address) : Prop :=
  lookup.entry.frameAddress.toNat ≤ 8 * wordIndex address ∧
    8 * wordIndex address + 8 ≤ lookup.entry.frameAddress.toNat + unit.pageSize

theorem pageShift_le : unit.pageShift ≤ 16 := by
  have bounded := List.countP_le_length (p := fun place => !unit.pageSizeMask.getLsbD place)
    (l := List.range 7)
  rw [List.length_range] at bounded
  unfold pageShift
  omega

theorem pageSize_eq : unit.pageSize = 2 ^ unit.pageShift := Nat.one_shiftLeft _

theorem eight_dvd_pageSize : 8 ∣ unit.pageSize := by
  rw [pageSize_eq]
  exact Nat.pow_dvd_pow 2 (show 3 ≤ unit.pageShift by unfold pageShift; omega)

theorem pageSize_pos : 0 < unit.pageSize := by
  rw [pageSize_eq]
  exact Nat.two_pow_pos _

theorem pageSize_dvd : unit.pageSize ∣ 2 ^ 16 := by
  rw [pageSize_eq]
  exact Nat.pow_dvd_pow 2 unit.pageShift_le

theorem pageSize_le : unit.pageSize ≤ 2 ^ 16 := Nat.le_of_dvd (by decide) unit.pageSize_dvd

theorem toNat_and_offsetMask (byteNumber : HalfWord) :
    (byteNumber &&& unit.offsetMask).toNat = byteNumber.toNat % unit.pageSize := by
  have small : unit.pageSize - 1 < 2 ^ 32 := by
    have := unit.pageSize_le
    omega
  rw [BitVec.toNat_and, offsetMask, BitVec.toNat_ofNat, Nat.mod_eq_of_lt small, pageSize_eq]
  exact Nat.and_two_pow_sub_one_eq_mod _ _

theorem frameAddress_lt {memory : μ} [Bus μ] {asid : BitVec 16} {byteNumber : HalfWord}
    {lookup : PageLookup} (found : unit.pageAt memory asid byteNumber = some lookup) :
    lookup.entry.frameAddress.toNat < 2 ^ 31 := by
  obtain ⟨-, entry, -, -⟩ := unit.pageAt_some found
  rw [entry]
  simp only [PageEntry.frameAddress, PageEntry.ofWord, BitVec.toNat_shiftLeft,
    BitVec.toNat_setWidth, BitVec.extractLsb'_toNat, Nat.shiftLeft_eq]
  omega

theorem pageAddress_lt [Bus μ] {memory : μ} {asid : BitVec 16} {byteNumber : HalfWord}
    {lookup : PageLookup} (found : unit.pageAt memory asid byteNumber = some lookup) :
    lookup.address.toNat < 2 ^ 31 := by
  obtain ⟨-, -, -, place⟩ := unit.pageAt_some found
  have offset : byteNumber.toNat % unit.pageSize < 2 ^ 31 := by
    have := Nat.mod_lt byteNumber.toNat unit.pageSize_pos
    have := unit.pageSize_le
    omega
  rw [place, BitVec.toNat_or, BitVec.toNat_setWidth_of_le (by decide), toNat_and_offsetMask]
  exact Nat.or_lt_two_pow (unit.frameAddress_lt found) offset

/-- In an aligned frame the real address is as far from its start as the byte number is from the
start of the page. -/
theorem toNat_pageAddress {lookup : PageLookup} (aligned : unit.FrameAligned lookup)
    (byteNumber : HalfWord) :
    (lookup.entry.frameAddress ||| (byteNumber &&& unit.offsetMask).setWidth 64).toNat =
      lookup.entry.frameAddress.toNat + byteNumber.toNat % unit.pageSize := by
  obtain ⟨frames, start⟩ := aligned
  have inside := Nat.mod_lt byteNumber.toNat unit.pageSize_pos
  rw [BitVec.toNat_or, BitVec.toNat_setWidth_of_le (by decide), toNat_and_offsetMask, start]
  rw [pageSize_eq] at inside ⊢
  exact (Nat.two_pow_add_eq_or_of_lt inside frames).symm

theorem inFrame_of_covers [Bus μ] {memory : μ} {asid : BitVec 16} {byteNumber : HalfWord}
    {lookup : PageLookup} (found : unit.pageAt memory asid byteNumber = some lookup)
    (aligned : unit.FrameAligned lookup) {count : Nat}
    (fits : count ≤ unit.pageRemaining byteNumber) {address : Address}
    (covers : Covers lookup.address count address) : unit.InFrame lookup address := by
  obtain ⟨-, -, -, place⟩ := unit.pageAt_some found
  have real := unit.toNat_pageAddress aligned byteNumber
  rw [← place] at real
  -- The frame begins and ends between words, so a word with a byte in it lies in it.
  obtain ⟨words, size⟩ := unit.eight_dvd_pageSize
  obtain ⟨start, frame⟩ := Nat.dvd_trans unit.eight_dvd_pageSize aligned
  have inside := Nat.mod_lt byteNumber.toNat unit.pageSize_pos
  unfold Covers at covers
  unfold pageRemaining at fits
  unfold InFrame
  omega

theorem pageRemaining_pos (byteNumber : HalfWord) : 0 < unit.pageRemaining byteNumber := by
  have inside := Nat.mod_lt byteNumber.toNat unit.pageSize_pos
  unfold pageRemaining
  omega

theorem eight_le_pageRemaining {byteNumber : HalfWord} (aligned : byteNumber.toNat % 8 = 0) :
    8 ≤ unit.pageRemaining byteNumber := by
  obtain ⟨words, size⟩ := unit.eight_dvd_pageSize
  have inside := Nat.mod_lt byteNumber.toNat unit.pageSize_pos
  have whole : byteNumber.toNat % unit.pageSize % 8 = 0 := by
    rw [Nat.mod_mod_of_dvd _ unit.eight_dvd_pageSize, aligned]
  unfold pageRemaining
  omega

end TranslationUnit

/-! ## Runs of bytes -/

namespace Activity

theorem readByte_reads (address : Address) : (readByte address).OnlyReads :=
  .bind (.readWord _) fun _ => .pure _

theorem readEach_reads (count : Nat) (address : Address) : (readEach count address).OnlyReads := by
  induction count generalizing address with
  | zero => exact .pure _
  | succ count ih => exact .bind (readByte_reads address) fun _ => .bind (ih _) fun _ => .pure _

theorem readAll_reads (count : Nat) (address : Address) : (readAll count address).OnlyReads := by
  induction count generalizing address with
  | zero => exact .pure _
  | succ count ih => exact .bind (.readWord _) fun _ => .bind (ih _) fun _ => .pure _

theorem readBytes_reads (count : Nat) (address : Address) : (readBytes count address).OnlyReads :=
  .bind (readEach_reads _ _) fun _ => .bind (readAll_reads _ _) fun _ =>
    .bind (readEach_reads _ _) fun _ => .pure _

theorem length_gathered (bytes : List Byte) : (gathered bytes).length = bytes.length / 8 := by
  fun_induction gathered bytes with
  | case1 b0 b1 b2 b3 b4 b5 b6 b7 rest ih =>
    simp only [List.length_cons, ih]
    omega
  | case2 bytes short =>
    rcases bytes with _ | ⟨_, _ | ⟨_, _ | ⟨_, _ | ⟨_, _ | ⟨_, _ | ⟨_, _ | ⟨_, _ | _⟩⟩⟩⟩⟩⟩⟩
    all_goals first | exact (short _ _ _ _ _ _ _ _ _ rfl).elim | simp

theorem writeEach_covers (bytes : List Byte) (address : Address)
    (bounded : address.toNat + bytes.length < 2 ^ 64) :
    (writeEach bytes address).WritesOnly (Covers address bytes.length) := by
  induction bytes generalizing address with
  | nil => exact .pure _
  | cons byte rest ih =>
    rw [List.length_cons] at bounded ⊢
    have next : (address + 1).toNat = address.toNat + 1 := by bv_omega
    refine .bind (.bind (.readWord _) fun word => .writeWord ?_ _) fun _ => ?_
    · exact (Covers.self address).widen (Nat.le_refl _) (by omega)
    · exact (ih (address + 1) (by omega)).mono fun _ => Covers.widen (by omega) (by omega)

theorem writeAll_covers (words : List Word) (address : Address)
    (bounded : address.toNat + 8 * words.length < 2 ^ 64) :
    (writeAll words address).WritesOnly (Covers address (8 * words.length)) := by
  induction words generalizing address with
  | nil => exact .pure _
  | cons word rest ih =>
    rw [List.length_cons] at bounded ⊢
    have next : (address + 8).toNat = address.toNat + 8 := by bv_omega
    refine .bind (.writeWord ?_ word) fun _ => ?_
    · exact (Covers.self address).widen (Nat.le_refl _) (by omega)
    · exact (ih (address + 8) (by omega)).mono fun _ => Covers.widen (by omega) (by omega)

theorem writeBytes_covers (bytes : List Byte) (address : Address)
    (bounded : address.toNat + bytes.length < 2 ^ 64) :
    (writeBytes bytes address).WritesOnly (Covers address bytes.length) := by
  have short : unaligned address bytes.length ≤ bytes.length := Nat.min_le_left _ _
  have moved (distance : Nat) (within : distance ≤ bytes.length) :
      (address + BitVec.ofNat 64 distance).toNat = address.toNat + distance := by
    rw [BitVec.toNat_add, BitVec.toNat_ofNat]
    omega
  -- Bytes up to the first whole word, whole words, and the bytes after the last one.
  unfold writeBytes
  refine .bind ?_ fun _ => .bind ?_ fun _ => ?_
  · refine (writeEach_covers _ address ?_).mono fun _ => Covers.widen (Nat.le_refl _) ?_
    all_goals simp only [List.length_take]; omega
  · refine (writeAll_covers _ _ ?_).mono fun _ => Covers.widen ?_ ?_
    all_goals
      rw [moved _ short]
      try simp only [length_gathered, List.length_drop]
      omega
  · refine (writeEach_covers _ _ ?_).mono fun _ => Covers.widen ?_ ?_
    all_goals
      rw [moved _ (by omega)]
      try simp only [List.length_drop]
      omega

end Activity

end Mainframe
