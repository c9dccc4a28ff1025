import Mainframe.Machine.Basic
import Mainframe.Proofs.ExchangeOutcomes

/-! Room for the exchange packages that settings name. Accepted settings align every package area
with the words of memory, and leave it inside memory unless addresses wrap. Where they do, the area
folds onto memory, and some of its words meet there if memory has fewer words than a package. -/

set_option autoImplicit false

namespace Mainframe

/-! ## Accepted settings -/

namespace Except

variable {ε α : Type}

theorem then_eq_ok {check : Except ε Unit} {rest : Except ε α} {result : α} :
    (check >>= fun _ => rest) = .ok result ↔ check = .ok () ∧ rest = .ok result := by
  cases check with
  | ok => exact (and_iff_right rfl).symm
  | error => exact ⟨nofun, fun both => nomatch both.1⟩

theorem forM_eq_ok {check : α → Except ε Unit} {items : List α} :
    items.forM check = .ok () ↔ ∀ item ∈ items, check item = .ok () := by
  induction items with
  | nil => exact ⟨fun _ => nofun, fun _ => rfl⟩
  | cons first rest ih =>
    rw [List.forall_mem_cons, ← ih]
    exact then_eq_ok

theorem mapError_eq_ok {δ : Type} {result : Except ε α} {change : ε → δ} {value : α} :
    result.mapError change = .ok value ↔ result = .ok value := by
  cases result with
  | ok found =>
    change Except.ok found = Except.ok value ↔ _
    rw [Except.ok.injEq, Except.ok.injEq]
  | error => exact ⟨nofun, nofun⟩

end Except

namespace MemorySettings

theorem positive_of_validate {settings : MemorySettings} (accepted : settings.validate = .ok ()) :
    0 < settings.sizeWords := by
  rw [Nat.pos_iff_ne_zero]
  intro empty
  rw [validate, if_pos empty] at accepted
  cases accepted

end MemorySettings

namespace ProcessorSettings

theorem aligned_of_validate {settings : ProcessorSettings} (accepted : settings.validate = .ok ())
    {address : HalfWord} (configured : address ∈ settings.packages) : address.toNat % 8 = 0 := by
  unfold validate at accepted
  split_ifs at accepted
  have required := Except.forM_eq_ok.mp accepted address configured
  by_contra misaligned
  rw [requireAligned, if_neg misaligned] at required
  cases required

end ProcessorSettings

namespace Settings

variable {settings : Settings}

theorem validate_eq_ok_iff : settings.validate = .ok () ↔ settings.memory.validate = .ok () ∧
    settings.processors.validate = .ok () ∧
      ∀ address ∈ settings.processors.packages, requireRoom settings.memory address = .ok () := by
  unfold validate
  rw [Except.then_eq_ok, Except.then_eq_ok, Except.mapError_eq_ok, Except.forM_eq_ok]

theorem inside_of_requireRoom {memory : MemorySettings} {address : HalfWord}
    (accepted : requireRoom memory address = .ok ()) (ends : memory.wrapsAddresses = false) :
    address.toNat + packageBytes ≤ memory.sizeWords * 8 := by
  by_contra short
  have refused : requireRoom memory address =
      .error (.packageOutOfRange address (memory.sizeWords * 8)) :=
    if_pos ⟨Nat.not_le.mp short, by rw [ends]; decide⟩
  rw [refused] at accepted
  cases accepted

end Settings

/-- What a processor makes of a package that it loads: it refuses the package and stays as it is, or
takes over the state. -/
def Processor.takeOver (later : Processor) (package : ExchangePackage) (address : HalfWord)
    (toMonitor : Bool) : Except PackageError Unit × Processor :=
  match package.validate address toMonitor with
  | .error error => (.error error, later)
  | .ok () => (.ok (), { later.load package address toMonitor with pending := .proceed })

/-! ## Package areas -/

namespace RealMemory

variable {memory : RealMemory} {address : HalfWord}

/-- A package area starts where a word does and, unless addresses wrap, ends where memory does at
the latest. -/
structure HasPackageArea (memory : RealMemory) (address : HalfWord) : Prop where
  aligned : address.toNat % 8 = 0
  positive : 0 < memory.sizeWords
  inside : memory.wraps = false → address.toNat / 8 + 58 ≤ memory.sizeWords

theorem HasPackageArea.slot_wordPlace (area : memory.HasPackageArea address) {index : Nat}
    (within : index < 58) :
    memory.slot (Activity.wordPlace (address.setWidth 64) index) =
      some ((address.toNat / 8 + index) % memory.sizeWords) := by
  have place : wordIndex (Activity.wordPlace (address.setWidth 64) index) =
      address.toNat / 8 + index := by
    have bounded := address.isLt
    have aligned := area.aligned
    rw [wordIndex_eq, Activity.wordPlace, BitVec.toNat_add, BitVec.toNat_setWidth,
      BitVec.toNat_ofNat]
    omega
  rw [slot, place]
  split
  · next inside => rw [Nat.mod_eq_of_lt inside]
  next outside =>
  cases wraps : memory.wraps with
  | true => rfl
  | false =>
    have inside := area.inside wraps
    omega

theorem HasPackageArea.holdsPackage (area : memory.HasPackageArea address)
    (large : 58 ≤ memory.sizeWords) : Activity.HoldsPackage memory address where
  exist index within := by
    change memory.slot _ ≠ none
    rw [area.slot_wordPlace within]
    exact Option.some_ne_none _
  distinct index within other between same := by
    change memory.slot _ = memory.slot _ at same
    rw [area.slot_wordPlace within, area.slot_wordPlace between, Option.some.injEq] at same
    have offsets : index ≡ other [MOD memory.sizeWords] := Nat.ModEq.add_left_cancel' _ same
    rwa [Nat.ModEq, Nat.mod_eq_of_lt (by omega), Nat.mod_eq_of_lt (by omega)] at offsets

def withPackage (memory : RealMemory) (address : HalfWord) (before : Processor) : RealMemory :=
  (((Routine.storePackage address).run before).perform memory).2

/-- The package of a state that was stored is there word for word, and a load takes it over. -/
structure KeepsPackage (memory : RealMemory) (address : HalfWord) (before : Processor) : Prop where
  words : ∀ index (_ : index < 58),
    packageWord (memory.withPackage address before) address index = before.package.toWords[index]
  loads : ∀ (later : Processor) (toMonitor : Bool),
    ((Routine.loadPackage address toMonitor).run later).perform
        (memory.withPackage address before) =
      (later.takeOver before.package address toMonitor, memory.withPackage address before)

theorem HasPackageArea.keepsPackage (area : memory.HasPackageArea address)
    (large : 58 ≤ memory.sizeWords) (before : Processor) :
    memory.KeepsPackage address before := by
  have holds := area.holdsPackage large
  have stored : memory.withPackage address before =
      ((Activity.writePackage address before.package).perform memory).2 := by
    rw [withPackage, Routine.run_storePackage]
  have aligned : address.extractLsb' 0 3 = 0 := by
    apply BitVec.eq_of_toNat_eq
    rw [BitVec.extractLsb'_toNat, Nat.shiftRight_zero]
    exact area.aligned
  constructor
  · intro index within
    rw [stored]
    exact holds.readWord before.package index within
  · intro later toMonitor
    rw [Routine.perform_loadPackage, if_neg (not_not.mpr aligned), stored, holds.readPackage]
    unfold Processor.takeOver
    dsimp only
    cases before.package.validate address toMonitor <;> rfl

/-- The first word of the package of a processor as it is built differs from all the others. -/
theorem toWords_initial_ne : ∀ index : Fin 58, index.val ≠ 0 →
    (Processor.initial 0 .standard).package.toWords.get ⟨0, by decide⟩ ≠
      (Processor.initial 0 .standard).package.toWords.get index := by
  decide +kernel

theorem HasPackageArea.not_keepsPackage (area : memory.HasPackageArea address)
    (small : memory.sizeWords < 58) : ¬ memory.KeepsPackage address (.initial 0 .standard) := by
  intro kept
  let before := Processor.initial 0 .standard
  let stored := memory.withPackage address before
  have slots (place : Address) : stored.slot place = memory.slot place := by
    unfold stored withPackage
    rw [Routine.run_storePackage]
    exact (Activity.perform_writeAll before.package.toWords.toList _ memory).1 place
  have meets : packageWord stored address 0 = packageWord stored address memory.sizeWords := by
    refine SlottedBus.readWord_congr stored ?_
    change stored.slot _ = stored.slot _
    rw [slots, slots, area.slot_wordPlace (by decide), area.slot_wordPlace small, Nat.add_zero,
      Nat.add_mod_right]
  refine toWords_initial_ne ⟨memory.sizeWords, small⟩ (Nat.ne_of_gt area.positive) ?_
  exact (kept.words 0 (by decide)).symm.trans (meets.trans (kept.words _ small))

end RealMemory

namespace Machine

variable {settings : Settings}

theorem memory_of_accepted (accepted : settings.validate = .ok ()) :
    ∃ machine, create settings = .ok machine ∧
      machine.memory = ⟨settings.memory.sizeWords, settings.memory.wrapsAddresses, .empty⟩ := by
  obtain ⟨sized, -, -⟩ := Settings.validate_eq_ok_iff.mp accepted
  have created : RealMemory.create settings.memory =
      .ok ⟨settings.memory.sizeWords, settings.memory.wrapsAddresses, .empty⟩ := by
    rw [RealMemory.create, sized]
    rfl
  unfold create
  rw [accepted, created]
  exact ⟨_, rfl, rfl⟩

theorem hasPackageArea_of_accepted (accepted : settings.validate = .ok ()) {address : HalfWord}
    (configured : address ∈ settings.processors.packages) (store : WordStore) :
    RealMemory.HasPackageArea
      ⟨settings.memory.sizeWords, settings.memory.wrapsAddresses, store⟩ address := by
  obtain ⟨sized, processors, rooms⟩ := Settings.validate_eq_ok_iff.mp accepted
  have aligned := ProcessorSettings.aligned_of_validate processors configured
  refine ⟨aligned, MemorySettings.positive_of_validate sized, fun ends => ?_⟩
  have inside := Settings.inside_of_requireRoom (rooms address configured) ends
  unfold packageBytes at inside
  dsimp only
  omega

/-- The machine that accepted settings give keeps every state that is stored in a package area which
they name, whatever else it holds, unless its memory wraps and is smaller than a package. -/
theorem packages_kept (accepted : settings.validate = .ok ()) :
    ∃ machine, create settings = .ok machine ∧
      ∀ address ∈ settings.processors.packages, ∀ store,
        (∀ before, RealMemory.KeepsPackage { machine.memory with store } address before) ↔
          ¬ (settings.memory.wrapsAddresses = true ∧ settings.memory.sizeWords < 58) := by
  obtain ⟨machine, created, memory⟩ := memory_of_accepted accepted
  refine ⟨machine, created, fun address configured store => ?_⟩
  have area := hasPackageArea_of_accepted accepted configured store
  rw [memory]
  constructor
  · exact fun keeps small => area.not_keepsPackage small.2 (keeps _)
  · intro roomy before
    refine area.keepsPackage ?_ before
    cases wraps : settings.memory.wrapsAddresses with
    | true => exact Nat.not_lt.mp fun small => roomy ⟨wraps, small⟩
    | false => exact Nat.le_of_add_left_le (area.inside wraps)

/-- A memory of just one package, where the job's area begins at the last word and goes on at the
first. -/
def foldingSettings : Settings where
  memory := ⟨58, true⟩
  processors := { ProcessorSettings.standard with monitorPackage := some 0, jobPackage := some 456 }

theorem foldingSettings_kept :
    foldingSettings.validate = .ok () ∧
      ∃ machine, create foldingSettings = .ok machine ∧
        (456 : HalfWord) ∈ foldingSettings.processors.packages ∧
        ∀ store before, RealMemory.KeepsPackage { machine.memory with store } 456 before := by
  have accepted : foldingSettings.validate = .ok () := by decide +kernel
  obtain ⟨machine, created, kept⟩ := packages_kept accepted
  have job : (456 : HalfWord) ∈ foldingSettings.processors.packages := by decide
  exact ⟨accepted, machine, created, job, fun store => (kept _ job store).mpr (by decide)⟩

def crampedSettings : Settings where
  memory := ⟨10, true⟩
  processors := { ProcessorSettings.standard with monitorPackage := some 0 }

/-- The settings are accepted, and the stack tops of a stored package replace its first word. -/
theorem crampedSettings_overwritten :
    crampedSettings.validate = .ok () ∧
      (0 : HalfWord) ∈ crampedSettings.processors.packages ∧
      ∃ machine, create crampedSettings = .ok machine ∧
        let before := Processor.initial 0 crampedSettings.processors
        before.package.toWords.get ⟨0, by decide⟩ = 0x0000100000000000 ∧
        packageWord (machine.memory.withPackage 0 before) 0 0 = 0 := by
  refine ⟨by decide +kernel, by decide, _, rfl, ?_⟩
  decide +kernel

end Machine

end Mainframe
