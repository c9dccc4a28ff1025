import Mainframe.Proofs.BlockAccess

/-! Fetches that are made again. A fetch reads the bytes of the instruction that it finds and no
others, so the same instruction is found in any memory that has these bytes and in which the same
translations succeed. -/

set_option autoImplicit false

namespace Mainframe

variable {μ : Type}

/-! ## Parcels -/

theorem Word.byteAt_append (word : Word) {index : Nat} (even : index % 2 = 0) :
    word.byteAt index ++ word.byteAt (index + 1) =
      word.extractLsb' (16 * (3 - index % 8 / 2)) 16 := by
  have first : byteShift index = byteShift (index + 1) + 8 := by
    unfold byteShift
    omega
  have second : 16 * (3 - index % 8 / 2) = byteShift (index + 1) := by
    unfold byteShift
    omega
  rw [second, byteAt, byteAt, byteFrom, byteFrom, first]
  exact BitVec.extractLsb'_append_extractLsb'_eq_extractLsb' rfl

section

variable [Bus μ]

def parcelIn (memory : μ) (place : Address) : Parcel :=
  (Bus.readWord memory place).extractLsb' (16 * (3 - place.toNat % 8 / 2)) 16

theorem parcelIn_eq [SlottedBus μ] (memory : μ) {place : Address} (even : place.toNat % 2 = 0) :
    parcelIn memory place = byteAt memory place ++ byteAt memory (place + 1) := by
  have next : (place + 1).toNat = place.toNat + 1 := by bv_omega
  have word : wordIndex (place + 1) = wordIndex place := by
    unfold wordIndex
    rw [BitVec.toNat_ushiftRight, BitVec.toNat_ushiftRight, next, Nat.shiftRight_eq_div_pow,
      Nat.shiftRight_eq_div_pow]
    omega
  have index : Activity.byteIndex (place + 1) = Activity.byteIndex place + 1 := by
    unfold Activity.byteIndex
    omega
  have even : Activity.byteIndex place % 2 = 0 := by
    unfold Activity.byteIndex
    omega
  rw [byteAt, byteAt, index,
    SlottedBus.readWord_congr memory (SlottedBus.slot_congr memory word),
    Word.byteAt_append _ even, Activity.byteIndex, Nat.mod_mod]
  rfl

theorem parcelIn_congr [SlottedBus μ] {memory kept : μ} {place : Address}
    (even : place.toNat % 2 = 0)
    (same : ∀ other ∈ run 2 place, byteAt kept other = byteAt memory other) :
    parcelIn kept place = parcelIn memory place := by
  rw [parcelIn_eq _ even, parcelIn_eq _ even, same place List.mem_cons_self,
    same (place + 1) (List.mem_cons_of_mem _ List.mem_cons_self)]

end

/-- Pages and frames begin at even addresses. -/
theorem Access.even_of_ok [Bus μ] {unit : TranslationUnit} {memory : μ} {access : Access}
    {real : Address} (even : access.address.byteNumber.getLsbD 0 = false)
    (found : access.outcome unit memory = .ok real) : real.toNat % 2 = 0 := by
  obtain ⟨-, -, -, index, -, rfl⟩ := outcome_eq_ok_iff.mp found
  have offset :
      (BitVec.ofNat 64 (access.address.byteNumber.toNat % unit.pageSize)).toNat % 2 = 0 := by
    rw [BitVec.toNat_ofNat, Nat.mod_mod_of_dvd _ (by decide : 2 ∣ 2 ^ 64),
      Nat.mod_mod_of_dvd _ (Dvd.dvd.trans (by decide : 2 ∣ 8) unit.eight_dvd_pageSize)]
    rw [BitVec.getLsbD, Nat.testBit_zero] at even
    simpa using even
  have frame : (unit.entryAt memory index).frameAddress.toNat % 2 = 0 := by
    rw [PageEntry.frameAddress, BitVec.toNat_shiftLeft, Nat.shiftLeft_eq]
    omega
  rw [BitVec.toNat_or, ← Nat.pow_one 2, Nat.or_mod_two_pow, Nat.pow_one, frame, offset]
  rfl

/-! ## What a fetch reads -/

namespace TranslationUnit

variable [Bus μ] (unit : TranslationUnit) (key : Byte) (memory : μ)

def parcel (address : VirtualAddress) : Option Parcel :=
  if address.byteNumber.getLsbD 0 then none
  else match (⟨address, .forExecute, key⟩ : Access).outcome unit memory with
    | .ok real => some (parcelIn memory real)
    | .error _ => none

def parcelPlaces (address : VirtualAddress) : List Address :=
  match (⟨address, .forExecute, key⟩ : Access).outcome unit memory with
  | .ok real => run 2 real
  | .error _ => []

/-- The second parcel of an instruction, and zero where there is none. -/
def secondParcel (format : Format) (address : VirtualAddress) : Option Parcel :=
  if format.hasSecondParcel then unit.parcel key memory (address.offset 2) else some 0

def instructionAt (address : VirtualAddress) : Option Instruction := do
  let first ← unit.parcel key memory address
  let format := formatOf (Instruction.opcodeOf first)
  let second ← unit.secondParcel key memory format address
  return .decode format first second

def secondPlaces (format : Format) (address : VirtualAddress) : List Address :=
  if format.hasSecondParcel then unit.parcelPlaces key memory (address.offset 2) else []

/-- The places of the bytes of the instruction at an address, as far as it can be fetched. -/
def codePlaces (address : VirtualAddress) : List Address :=
  unit.parcelPlaces key memory address ++
    match unit.parcel key memory address with
    | some first => unit.secondPlaces key memory (formatOf (Instruction.opcodeOf first)) address
    | none => []

variable {unit key} {start base : μ}

theorem parcel_eq_some_iff {address : VirtualAddress} {parcel : Parcel} {memory : μ} :
    unit.parcel key memory address = some parcel ↔
      address.byteNumber.getLsbD 0 = false ∧ ∃ real,
        (⟨address, .forExecute, key⟩ : Access).outcome unit memory = .ok real ∧
          parcelIn memory real = parcel := by
  unfold TranslationUnit.parcel
  cases address.byteNumber.getLsbD 0 <;>
    cases (⟨address, .forExecute, key⟩ : Access).outcome unit memory <;> simp

theorem parcelPlaces_of_ok {address : VirtualAddress} {real : Address} {memory : μ}
    (found : (⟨address, .forExecute, key⟩ : Access).outcome unit memory = .ok real) :
    unit.parcelPlaces key memory address = run 2 real := by
  rw [parcelPlaces, found]

theorem parcel_of_serves [SlottedBus μ] {address : VirtualAddress} {parcel : Parcel}
    (serves : unit.Serves start base)
    (same : ∀ place ∈ unit.parcelPlaces key start address, byteAt base place = byteAt start place)
    (found : unit.parcel key start address = some parcel) :
    unit.parcel key base address = some parcel ∧
      unit.parcelPlaces key base address = unit.parcelPlaces key start address := by
  obtain ⟨even, real, outcome, rfl⟩ := parcel_eq_some_iff.mp found
  have again := serves _ real outcome
  rw [parcelPlaces_of_ok outcome] at same ⊢
  have bytes := parcelIn_congr (Access.even_of_ok even outcome) same
  exact ⟨parcel_eq_some_iff.mpr ⟨even, real, again, bytes⟩, parcelPlaces_of_ok again⟩

theorem secondParcel_of_serves [SlottedBus μ] {format : Format} {address : VirtualAddress}
    {parcel : Parcel} (serves : unit.Serves start base)
    (same : ∀ place ∈ unit.secondPlaces key start format address,
      byteAt base place = byteAt start place)
    (found : unit.secondParcel key start format address = some parcel) :
    unit.secondParcel key base format address = some parcel ∧
      unit.secondPlaces key base format address = unit.secondPlaces key start format address := by
  unfold secondParcel at found ⊢
  unfold secondPlaces at same ⊢
  split at found
  · next long =>
    rw [if_pos long] at same ⊢
    rw [if_pos long, if_pos long]
    exact parcel_of_serves serves same found
  · next short =>
    rw [if_neg short, if_neg short]
    exact ⟨found, by rw [if_neg short]⟩

theorem instructionAt_eq_some_iff {address : VirtualAddress} {instruction : Instruction}
    {memory : μ} :
    unit.instructionAt key memory address = some instruction ↔
      ∃ first second, unit.parcel key memory address = some first ∧
        unit.secondParcel key memory (formatOf (Instruction.opcodeOf first)) address = some second ∧
        .decode (formatOf (Instruction.opcodeOf first)) first second = instruction := by
  simp only [instructionAt, Option.bind_eq_bind, Option.bind_eq_some_iff, Option.pure_def,
    Option.some.injEq, exists_and_left]

theorem codePlaces_of_some {address : VirtualAddress} {first : Parcel} {memory : μ}
    (found : unit.parcel key memory address = some first) :
    unit.codePlaces key memory address = unit.parcelPlaces key memory address ++
      unit.secondPlaces key memory (formatOf (Instruction.opcodeOf first)) address := by
  rw [codePlaces, found]

theorem instructionAt_of_serves [SlottedBus μ] {address : VirtualAddress}
    {instruction : Instruction} (serves : unit.Serves start base)
    (same : ∀ place ∈ unit.codePlaces key start address, byteAt base place = byteAt start place)
    (found : unit.instructionAt key start address = some instruction) :
    unit.instructionAt key base address = some instruction ∧
      unit.codePlaces key base address = unit.codePlaces key start address := by
  obtain ⟨first, second, here, there, rfl⟩ := instructionAt_eq_some_iff.mp found
  rw [codePlaces_of_some here] at same ⊢
  obtain ⟨sameFirst, sameSecond⟩ := List.forall_mem_append.mp same
  obtain ⟨again, places⟩ := parcel_of_serves serves sameFirst here
  obtain ⟨more, others⟩ := secondParcel_of_serves serves sameSecond there
  rw [codePlaces_of_some again, places, others]
  exact ⟨instructionAt_eq_some_iff.mpr ⟨first, second, again, more, rfl⟩, rfl⟩

end TranslationUnit

/-! ## Fetches -/

theorem Processor.Resembles.sharesTables {processor left : Processor} {unit : TranslationUnit}
    (alike : processor.Resembles left) (shares : unit.SharesTables processor.translation) :
    unit.SharesTables left.translation := by
  obtain ⟨untranslatable, privilege, rfl⟩ := alike
  obtain ⟨_, _, same⟩ := shares
  unfold TranslationUnit.SharesTables
  exact ⟨untranslatable, privilege, by rw [tracing, same]⟩

namespace Execution

variable [Bus μ] [SlottedBus μ] {unit : TranslationUnit} {processor : Processor}
  {start memory : μ}

variable [ForgetfulBus μ]

theorem ending_fetchParcel {address : VirtualAddress} {parcel : Parcel}
    (shares : unit.SharesTables processor.translation) (apart : unit.TablesApart start)
    (differs : unit.DiffersAt [] start memory)
    (spares : ∀ place ∈ unit.parcelPlaces processor.key start address, unit.SparesWord start place)
    (found : unit.parcel processor.key start address = some parcel) :
    ∃ left kept, (fetchParcel address).ending processor memory = ((.ok parcel, left), kept) ∧
      processor.Resembles left ∧ unit.DiffersAt [] start kept := by
  obtain ⟨even, real, outcome, rfl⟩ := TranslationUnit.parcel_eq_some_iff.mp found
  obtain ⟨left, alike, ends⟩ := ending_translate_resembling shares differs.toSearchesAlike .forExecute
    address
  have outcome : (processor.access .forExecute address).outcome unit start = .ok real := outcome
  have marked := differs.trans (TranslationUnit.differsAt_leave apart differs.toSearchesAlike
    (processor.access .forExecute address))
  rw [TranslationUnit.parcelPlaces_of_ok outcome] at spares
  have bytes := parcelIn_congr (Access.even_of_ok even outcome) fun place member =>
    marked.bytes place (spares place member) List.not_mem_nil
  rw [outcome] at ends
  refine ⟨left, _, ?_, alike, marked⟩
  unfold fetchParcel
  extract_lets fetch
  rw [if_neg (by rw [even]; nofun), ending_bind, ends, ← bytes]
  rfl

omit [ForgetfulBus μ] in
theorem ending_fetchParcel_none {address : VirtualAddress}
    (shares : unit.SharesTables processor.translation) (alike : unit.SearchesAlike start memory)
    (missing : unit.parcel processor.key start address = none) :
    ∃ condition, ((fetchParcel address).ending processor memory).1.1 = .error condition := by
  obtain ⟨left, -, ends⟩ := ending_translate_resembling shares alike .forExecute address
  unfold fetchParcel
  extract_lets fetch
  split
  · exact ⟨_, rfl⟩
  next even =>
  cases outcome : (processor.access .forExecute address).outcome unit start with
  | error fault =>
    rw [outcome] at ends
    exact ⟨.ofFault fault, ending_bind_error (by rw [ends]; rfl)⟩
  | ok real =>
    have found := TranslationUnit.parcel_eq_some_iff.mpr ⟨by simpa using even, real, outcome, rfl⟩
    cases missing.symm.trans found

/-- A fetch finds the instruction that is there at the start. -/
theorem ending_fetchInstruction {instruction : Instruction}
    (shares : unit.SharesTables processor.translation) (apart : unit.TablesApart start)
    (differs : unit.DiffersAt [] start memory)
    (spares : ∀ place ∈ unit.codePlaces processor.key start processor.p,
      unit.SparesWord start place)
    (found : unit.instructionAt processor.key start processor.p = some instruction) :
    ∃ left kept, fetchInstruction.ending processor memory = ((.ok instruction, left), kept) := by
  obtain ⟨first, second, here, there, rfl⟩ := TranslationUnit.instructionAt_eq_some_iff.mp found
  rw [TranslationUnit.codePlaces_of_some here] at spares
  obtain ⟨sparesFirst, sparesSecond⟩ := List.forall_mem_append.mp spares
  obtain ⟨left, kept, ends, alike, marked⟩ :=
    ending_fetchParcel shares apart differs sparesFirst here
  have shares := alike.sharesTables shares
  obtain ⟨_, _, rfl⟩ := alike
  unfold fetchInstruction
  rw [ending, course_get, ← ending, ending_bind, ends]
  dsimp only
  unfold TranslationUnit.secondParcel at there
  unfold TranslationUnit.secondPlaces at sparesSecond
  by_cases long : (formatOf (Instruction.opcodeOf first)).hasSecondParcel = true
  · rw [if_pos long] at sparesSecond there ⊢
    obtain ⟨last, marked, ends, -, -⟩ := ending_fetchParcel shares apart marked sparesSecond there
    rw [ending_bind, ends]
    exact ⟨last, marked, rfl⟩
  · rw [if_neg long, Option.some.injEq] at there
    subst there
    rw [if_neg long]
    exact ⟨_, kept, rfl⟩

theorem ending_fetchInstruction_none (shares : unit.SharesTables processor.translation)
    (apart : unit.TablesApart start) (differs : unit.DiffersAt [] start memory)
    (spares : ∀ place ∈ unit.codePlaces processor.key start processor.p,
      unit.SparesWord start place)
    (missing : unit.instructionAt processor.key start processor.p = none) :
    ∃ condition, (fetchInstruction.ending processor memory).1.1 = .error condition := by
  unfold fetchInstruction
  rw [ending, course_get, ← ending]
  -- One of the two parcels is missing; a first parcel that is there says whether a second is
  -- needed.
  cases here : unit.parcel processor.key start processor.p with
  | none =>
    obtain ⟨condition, fails⟩ := ending_fetchParcel_none shares differs.toSearchesAlike here
    exact ⟨condition, ending_bind_error fails⟩
  | some first =>
    rw [TranslationUnit.codePlaces_of_some here] at spares
    obtain ⟨left, kept, ends, alike, marked⟩ :=
      ending_fetchParcel shares apart differs (List.forall_mem_append.mp spares).1 here
    have shares := alike.sharesTables shares
    obtain ⟨_, _, rfl⟩ := alike
    rw [ending_bind, ends]
    dsimp only
    cases there : unit.secondParcel processor.key start
      (formatOf (Instruction.opcodeOf first)) processor.p with
    | some second =>
      cases missing.symm.trans
        (TranslationUnit.instructionAt_eq_some_iff.mpr ⟨first, second, here, there, rfl⟩)
    | none =>
      unfold TranslationUnit.secondParcel at there
      split at there
      · next long =>
        obtain ⟨condition, fails⟩ := ending_fetchParcel_none shares marked.toSearchesAlike there
        rw [if_pos long]
        exact ⟨condition, ending_bind_error fails⟩
      · cases there

theorem instructionAt_of_ending {instruction : Instruction}
    (shares : unit.SharesTables processor.translation) (apart : unit.TablesApart start)
    (differs : unit.DiffersAt [] start memory)
    (spares : ∀ place ∈ unit.codePlaces processor.key start processor.p,
      unit.SparesWord start place)
    (completes : (fetchInstruction.ending processor memory).1.1 = .ok instruction) :
    unit.instructionAt processor.key start processor.p = some instruction := by
  cases found : unit.instructionAt processor.key start processor.p with
  | some other =>
    obtain ⟨_, _, ends⟩ := ending_fetchInstruction shares apart differs spares found
    rw [ends] at completes
    cases completes
    rfl
  | none =>
    obtain ⟨condition, fails⟩ := ending_fetchInstruction_none shares apart differs spares found
    cases fails.symm.trans completes

end Execution

end Mainframe
