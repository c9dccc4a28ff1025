import Mainframe.Legacy.Registers
import Mainframe.Proofs.SaveAreas

/-! The registers of the older instruction set in the native registers. They come back from there
cut to their widths, so registers that keep within their widths come back as they were. -/

set_option autoImplicit false

namespace Mainframe

namespace LegacyRegisters

variable (registers : LegacyRegisters)

/-- Every register keeps within its width: eighteen bits for addresses and index registers,
sixty with the sign extended for operands, and twenty-four for control fields. -/
structure WithinWidths : Prop where
  p : registers.p.toNat < 2 ^ 18
  parcel : registers.parcel.toNat < 2 ^ 2
  a : ∀ index (inside : index < 8), registers.a[index].toNat < 2 ^ 18
  b : ∀ index (inside : index < 8), registers.b[index].toNat < 2 ^ 18
  x : ∀ index (inside : index < 8), operand registers.x[index] = registers.x[index]
  controls : ∀ index (inside : index < 8), registers.controls[index].toNat < 2 ^ 24

/-! ## Where the registers are -/

theorem toNative_a (p : VirtualAddress) {index : Nat} (inside : index < 8) :
    (registers.toNative p).a[index] =
      p.withByteNumber ((registers.a[index].setWidth 18).setWidth 32) :=
  (Vector.getElem_append_left inside).trans (Vector.getElem_map _ inside)

theorem toNative_x (p : VirtualAddress) {index : Nat} (inside : index < 8) :
    (registers.toNative p).x[index] = operand registers.x[index] :=
  (Vector.getElem_append_left inside).trans (Vector.getElem_map _ inside)

theorem toNative_upper (p : VirtualAddress) {index : Nat} (inside : index < 8) :
    (registers.toNative p).x[8 + index] =
      (registers.controls[index].setWidth 24 ++ registers.b[index].setWidth 18).setWidth 64 := by
  refine (Vector.getElem_append_right _ (Nat.le_add_right 8 index)).trans ?_
  simp only [Nat.add_sub_cancel_left]
  exact Vector.getElem_zipWith inside

theorem controlField_upper (control index : HalfWord) :
    controlField ((control.setWidth 24 ++ index.setWidth 18).setWidth 64) =
      (control.setWidth 24).setWidth 32 := by
  rw [controlField, BitVec.extractLsb'_setWidth_of_le (by decide),
    BitVec.extractLsb'_append_eq_left]

theorem setWidth_upper (control index : HalfWord) :
    (((control.setWidth 24 ++ index.setWidth 18).setWidth 64).setWidth 18).setWidth 32 =
      (index.setWidth 18).setWidth 32 := by
  have low : ((control.setWidth 24 ++ index.setWidth 18).setWidth 64).setWidth 18 =
      index.setWidth 18 := by
    rw [BitVec.setWidth_setWidth_of_le _ (show 18 ≤ 64 by decide), BitVec.setWidth_append,
      dif_pos (Nat.le_refl 18), BitVec.setWidth_eq]
  rw [low]

/-! ## Registers cut to their widths -/

def cutAddress (address : HalfWord) : HalfWord := (address.setWidth 18).setWidth 32

def cutControl (control : HalfWord) : HalfWord := (control.setWidth 24).setWidth 32

/-- What native registers have room for: eighteen bits of addresses and index registers, two of
the parcel, sixty of operands, and twenty-four of control fields. -/
def cut : LegacyRegisters where
  p := cutAddress registers.p
  parcel := (registers.parcel.setWidth 2).setWidth 8
  a := registers.a.map cutAddress
  b := registers.b.map cutAddress
  x := registers.x.map operand
  referenceAddress := cutControl registers.referenceAddress
  fieldLength := cutControl registers.fieldLength
  exitMode := cutControl registers.exitMode
  extendedReference := cutControl registers.extendedReference
  extendedLength := cutControl registers.extendedLength
  monitorAddress := cutControl registers.monitorAddress

theorem setWidth_cut {wide : Nat} (narrow : Nat) (fits : narrow ≤ wide) (bits : BitVec wide) :
    ((bits.setWidth narrow).setWidth wide).setWidth narrow = bits.setWidth narrow := by
  rw [BitVec.setWidth_setWidth_of_le _ fits, BitVec.setWidth_eq]

theorem cutAddress_cutAddress (address : HalfWord) :
    cutAddress (cutAddress address) = cutAddress address :=
  congrArg (BitVec.setWidth 32) (setWidth_cut 18 (by decide) address)

theorem operand_operand (word : Word) : operand (operand word) = operand word := by
  have low : (operand word).setWidth 60 = word.setWidth 60 := by
    apply BitVec.eq_of_getLsbD_eq
    intro bit inside
    change (((word.setWidth 60).signExtend 64).setWidth 60).getLsbD bit =
      (word.setWidth 60).getLsbD bit
    rw [BitVec.getLsbD_setWidth, BitVec.getLsbD_signExtend]
    grind
  exact congrArg (BitVec.signExtend 64) low

theorem ofNative_toNative_cut (p : VirtualAddress) :
    ofNative (registers.toNative p) = registers.cut := by
  have controls (index : Nat) (inside : index < 8) :
      controlField (registers.toNative p).x[8 + index] = cutControl registers.controls[index] := by
    rw [registers.toNative_upper p inside, controlField_upper, cutControl]
  -- Each field is unpacked from the bits that it was packed into, and is cut to their number.
  apply LegacyRegisters.ext
  case p =>
    change (registers.byteNumber.extractLsb' 3 18).setWidth 32 = _
    rw [byteNumber, BitVec.extractLsb'_setWidth_of_le (by decide),
      BitVec.extractLsb'_append_eq_of_le (by decide)]
    exact congrArg _ BitVec.extractLsb'_append_eq_left
  case parcel =>
    change (registers.byteNumber.extractLsb' 1 2).setWidth 8 = _
    rw [byteNumber, BitVec.extractLsb'_setWidth_of_le (by decide),
      BitVec.extractLsb'_append_eq_of_le (by decide)]
    exact congrArg _ BitVec.extractLsb'_append_eq_right
  case a =>
    refine Vector.ext fun index inside => ?_
    have taken : ((registers.toNative p).a.take 8)[index] =
      p.withByteNumber (cutAddress registers.a[index]) :=
        (Vector.getElem_take inside).trans (registers.toNative_a p inside)
    refine (Vector.getElem_map _ inside).trans ?_
    rw [taken]
    exact (cutAddress_cutAddress _).trans (Vector.getElem_map _ inside).symm
  case b =>
    refine Vector.ext fun index inside => ?_
    have dropped : ((registers.toNative p).x.drop 8)[index] =
      (registers.controls[index].setWidth 24 ++ registers.b[index].setWidth 18).setWidth 64 :=
        (Vector.getElem_drop inside).trans (registers.toNative_upper p inside)
    refine (Vector.getElem_map _ inside).trans ?_
    rw [dropped]
    exact (setWidth_upper _ _).trans (Vector.getElem_map cutAddress inside).symm
  case x =>
    refine Vector.ext fun index inside => ?_
    have taken : ((registers.toNative p).x.take 8)[index] = operand registers.x[index] :=
      (Vector.getElem_take inside).trans (registers.toNative_x p inside)
    refine (Vector.getElem_map _ inside).trans ?_
    rw [taken]
    exact (operand_operand _).trans (Vector.getElem_map _ inside).symm
  case referenceAddress => exact controls 0 (by decide)
  case fieldLength => exact controls 1 (by decide)
  case exitMode => exact controls 2 (by decide)
  case extendedReference => exact controls 3 (by decide)
  case extendedLength => exact controls 4 (by decide)
  case monitorAddress => exact controls 5 (by decide)

variable {registers}

theorem WithinWidths.cut_eq (within : registers.WithinWidths) : registers.cut = registers := by
  have control (index : Nat) (inside : index < 8) :
      cutControl registers.controls[index] = registers.controls[index] :=
    setWidth_narrow 24 (within.controls index inside)
  apply LegacyRegisters.ext
  case p => exact setWidth_narrow 18 within.p
  case parcel => exact setWidth_narrow 2 within.parcel
  case a =>
    refine Vector.ext fun index inside => (Vector.getElem_map _ inside).trans ?_
    exact setWidth_narrow 18 (within.a index inside)
  case b =>
    refine Vector.ext fun index inside => (Vector.getElem_map _ inside).trans ?_
    exact setWidth_narrow 18 (within.b index inside)
  case x =>
    exact Vector.ext fun index inside =>
      (Vector.getElem_map _ inside).trans (within.x index inside)
  case referenceAddress => exact control 0 (by decide)
  case fieldLength => exact control 1 (by decide)
  case exitMode => exact control 2 (by decide)
  case extendedReference => exact control 3 (by decide)
  case extendedLength => exact control 4 (by decide)
  case monitorAddress => exact control 5 (by decide)

theorem ofNative_toNative (within : registers.WithinWidths) (p : VirtualAddress) :
    ofNative (registers.toNative p) = registers :=
  (registers.ofNative_toNative_cut p).trans within.cut_eq

/-! ## Registers taken from native ones -/

theorem withinWidths_ofNative (native : Native) : (ofNative native).WithinWidths := by
  have narrow {width wide : Nat} (bits : BitVec width) : (bits.setWidth wide).toNat < 2 ^ width :=
    (BitVec.toNat_setWidth wide bits).symm ▸ Nat.lt_of_le_of_lt (Nat.mod_le _ _) bits.isLt
  constructor
  case p => exact narrow _
  case parcel => exact narrow _
  case a =>
    intro index inside
    exact (Vector.getElem_map _ inside).symm ▸ narrow _
  case b =>
    intro index inside
    exact (Vector.getElem_map _ inside).symm ▸ narrow _
  case x =>
    intro index inside
    exact (Vector.getElem_map _ inside).symm ▸ operand_operand _
  case controls =>
    intro index inside
    match index, inside with
    | 0, _ | 1, _ | 2, _ | 3, _ | 4, _ | 5, _ => exact narrow _
    | 6, _ | 7, _ => exact Nat.two_pow_pos 24

theorem toNative_ofNative_toNative (native : Native) (p : VirtualAddress) :
    (ofNative ((ofNative native).toNative p)).toNative p = (ofNative native).toNative p := by
  rw [ofNative_toNative (withinWidths_ofNative native)]

end LegacyRegisters

end Mainframe
