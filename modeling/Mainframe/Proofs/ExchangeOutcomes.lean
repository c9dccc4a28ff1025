import Mainframe.Proofs.Coverage
import Mainframe.Proofs.PackageRoundTrips

/-! What exchanges come to. An exchange is refused and changes nothing else, or it leaves the old
state in one package area and takes over the state of the other. An exchange back then restores
the job that was left. -/

set_option autoImplicit false

namespace Mainframe

variable {μ : Type}

namespace Processor

/-! ## Conditions after an exchange -/

def reported (processor : Processor) : Processor :=
  { processor with
    pending := processor.conditions.foldl
      (fun pending condition => max pending (processor.actionOf condition)) processor.pending }

theorem withCondition_of_holds {processor : Processor} {condition : Condition}
    (held : processor.holds condition = true) : processor.withCondition condition = processor := by
  have kept (bits : ConditionBits) (ordinal : Fin 16)
      (isSet : bits.getLsbD (15 - ordinal.val) = true) : bits ||| ordinalBit ordinal = bits := by
    rw [ordinalBit_eq]
    ext place inside
    rw [BitVec.getElem_or, BitVec.getElem_twoPow]
    by_cases same : place = 15 - ordinal.val
    · subst same
      rw [BitVec.getLsbD_eq_getElem inside] at isSet
      simp [isSet]
    · simp [same]
  rw [holds_eq] at held
  cases condition with
  | monitor condition =>
    exact congrArg (fun bits => { processor with monitorConditions := bits })
      (kept processor.monitorConditions condition.ordinal held)
  | user condition =>
    exact congrArg (fun bits => { processor with userConditions := bits })
      (kept processor.userConditions condition.ordinal held)

theorem rescanned_eq_reported (processor : Processor) : processor.rescanned = processor.reported := by
  have raising (conditions : List Condition) (pending : Action)
      (held : ∀ condition ∈ conditions, processor.holds condition = true) :
      conditions.foldl raise { processor with pending } = { processor with
        pending := conditions.foldl
          (fun pending condition => max pending (processor.actionOf condition)) pending } := by
    induction conditions generalizing pending with
    | nil => rfl
    | cons condition rest ih =>
      obtain ⟨here, others⟩ := List.forall_mem_cons.mp held
      have same : ({ processor with pending } : Processor).withCondition condition =
          { processor with pending } := withCondition_of_holds here
      rw [List.foldl_cons, raise, same]
      exact ih _ others
  exact raising processor.conditions processor.pending fun condition member =>
    (List.mem_filter.mp member).2

/-! ## Packages in memory -/

end Processor

section

variable [Bus μ]

def packageWord (memory : μ) (address : HalfWord) (index : Nat) : Word :=
  Bus.readWord memory (Activity.wordPlace (address.setWidth 64) index)

def packageIn (memory : μ) (address : HalfWord) : ExchangePackage :=
  .ofWords (Vector.ofFn fun index : Fin 58 => packageWord memory address index)

theorem readPackage_eq (memory : μ) (address : HalfWord) :
    ((Activity.readPackage address).perform memory).1 = packageIn memory address := by
  rw [Activity.readPackage, Activity.perform_bind]
  refine congrArg ExchangePackage.ofWords (Vector.ext fun index inside => ?_)
  rw [Activity.getElem_readVector memory _ 58 index inside, Vector.getElem_ofFn]
  rfl

theorem instructionMachine_packageIn (memory : μ) (address : HalfWord) :
    (packageIn memory address).instructionMachine =
      (packageWord memory address 1).extractLsb' 60 4 :=
  congrArg (BitVec.extractLsb' 60 4) (Vector.getElem_ofFn (by decide : 1 < 58))

theorem ring_packageIn (memory : μ) (address : HalfWord) :
    (packageIn memory address).p.ring = (packageWord memory address 0).extractLsb' 44 4 :=
  congrArg (BitVec.extractLsb' 44 4) (Vector.getElem_ofFn (by decide : 0 < 58))

theorem packageIn_congr {memory other : μ} {address place : HalfWord}
    (same : ∀ index < 58, packageWord memory address index = packageWord other place index) :
    packageIn memory address = packageIn other place := by
  refine congrArg ExchangePackage.ofWords (Vector.ext fun index inside => ?_)
  rw [Vector.getElem_ofFn, Vector.getElem_ofFn]
  exact same index inside

theorem packageIn_toWords {memory : μ} {address : HalfWord} {package : ExchangePackage}
    (written : ∀ index (inside : index < 58),
      packageWord memory address index = package.toWords[index]) :
    packageIn memory address = package := by
  have words : (Vector.ofFn fun index : Fin 58 => packageWord memory address index) =
      package.toWords := by
    refine Vector.ext fun index inside => ?_
    rw [Vector.getElem_ofFn]
    exact written index inside
  rw [packageIn, words, package.ofWords_toWords]

end

namespace Processor

variable [Bus μ] (processor : Processor) (memory : μ)

/-- The package to be loaded belongs to an unknown machine, or to the older one in monitor mode or
in ring one. -/
def Refuses : Prop :=
  let machine := (packageWord memory processor.exchangeSource 1).extractLsb' 60 4
  1 < machine.toNat ∨ machine.toNat = 1 ∧
    (processor.monitorMode = false ∨
      (packageWord memory processor.exchangeSource 0).extractLsb' 44 4 = 1)

theorem candidate_eq : processor.candidate memory = packageIn memory processor.exchangeSource :=
  readPackage_eq memory processor.exchangeSource

theorem validate_candidate :
    (processor.Refuses memory ∧
      ∃ error, (processor.candidate memory).validate processor.exchangeSource
        (!processor.monitorMode) = .error error) ∨
    (¬ processor.Refuses memory ∧
      (processor.candidate memory).validate processor.exchangeSource
        (!processor.monitorMode) = .ok ()) := by
  have machine := instructionMachine_packageIn memory processor.exchangeSource
  have ring := ring_packageIn memory processor.exchangeSource
  unfold Refuses ExchangePackage.validate
  rw [← machine, ← ring, candidate_eq]
  dsimp only
  generalize packageIn memory processor.exchangeSource = package
  -- The check goes by the instruction set of the package: unknown, older, or native.
  by_cases above : 1 < package.instructionMachine
  · rw [if_pos above]
    exact .inl ⟨.inl above, _, rfl⟩
  rw [if_neg above]
  by_cases older : package.instructionMachine = 1
  · rw [if_pos older, older]
    cases processor.monitorMode with
    | false => exact .inl ⟨.inr ⟨rfl, .inl rfl⟩, _, rfl⟩
    | true =>
      by_cases one : package.p.ring = 1
      · exact .inl ⟨.inr ⟨rfl, .inr one⟩, _, if_pos one⟩
      · refine .inr ⟨?_, if_neg one⟩
        rintro (more | ⟨-, off | same⟩)
        · exact absurd more (by decide)
        · cases off
        · exact one same
  · rw [if_neg older]
    refine .inr ⟨?_, rfl⟩
    rintro (more | ⟨same, -⟩)
    · exact above more
    · exact older (BitVec.eq_of_toNat_eq same)

variable [SlottedBus μ]

/-- The area for the old state and that of the package to be loaded have no word in common. -/
def AreasDisjoint : Prop :=
  ∀ index < 58, ∀ other < 58,
    SlottedBus.slot memory (Activity.wordPlace (processor.exchangeSource.setWidth 64) index) ≠
      SlottedBus.slot memory (Activity.wordPlace (processor.exchangeDestination.setWidth 64) other)

/-- The old state is encoded in its area, and no other word is changed. The new state is the one
that the other area encodes, in the other mode; the registers that packages have no room for stay,
and a monitor knows where it was loaded from. -/
structure Swaps (before : Processor) (memory : μ) (after : Processor) (kept : μ) : Prop where
  slots : ∀ address, SlottedBus.slot kept address = SlottedBus.slot memory address
  written : ∀ index (inside : index < 58),
    packageWord kept before.exchangeDestination index = before.package.toWords[index]
  others : ∀ address, (∀ index < 58, SlottedBus.slot memory address ≠
      SlottedBus.slot memory (Activity.wordPlace (before.exchangeDestination.setWidth 64) index)) →
    Bus.readWord kept address = Bus.readWord memory address
  state : after = (before.load (packageIn memory before.exchangeSource) before.exchangeSource
    (!before.monitorMode)).reported
  mode : after.monitorMode = !before.monitorMode
  jobPackage : after.jobPackage = before.jobPackage
  monitorPackage : before.monitorMode = false → after.monitorPackage = before.monitorPackage
  systemTimer : after.systemTimer = before.systemTimer
  pageTable : after.translation.pageTable = before.translation.pageTable
  pageTableLength : after.translation.pageTableLength = before.translation.pageTableLength
  pageSizeMask : after.translation.pageSizeMask = before.translation.pageSizeMask

/-- The job as its package tells it. Registers of the older instruction set are those that the
native ones stand for. -/
def inPackage (job : Processor) : Processor :=
  { job with
    p := job.nativeView.p
    a := job.nativeView.a
    x := job.nativeView.x
    instructionSet := match job.instructionSet with
      | .native => .native
      | .legacy _ => .legacy (.ofNative job.nativeView) }

/-- A package has room for the key and the numbers of the job, and the job may be loaded. -/
structure Resumable (job : Processor) : Prop where
  mode : job.monitorMode = false
  key : job.key.toNat < 2 ^ 6
  virtualMachine : job.virtualMachine.toNat < 2 ^ 4
  largestRing : job.largestRing.toNat < 2 ^ 4
  ring : job.instructionSet = .native ∨ job.p.ring ≠ 1

/-- The job goes on from its package where it was left. -/
def Restores (job restored : Processor) : Prop :=
  ∃ pending, restored = { job.inPackage with
    currentAddress := job.inPackage.p
    nextAddress := job.inPackage.p
    nextKey := job.key
    pending }

omit [Bus μ] [SlottedBus μ] in
theorem load_package {job : Processor} (resumable : job.Resumable) (package : ExchangePackage)
    (source address : HalfWord) (pending : Action) :
    ({ job.load package source true with pending } : Processor).load job.package address false =
      { job.inPackage with
        currentAddress := job.inPackage.p
        nextAddress := job.inPackage.p
        nextKey := job.key
        pending } := by
  have key : (job.key.setWidth 6).setWidth 8 = job.key := setWidth_narrow 6 resumable.key
  have machine : (job.virtualMachine.setWidth 4).setWidth 8 = job.virtualMachine :=
    setWidth_narrow 4 resumable.virtualMachine
  have ring : (job.largestRing.setWidth 4).setWidth 8 = job.largestRing :=
    setWidth_narrow 4 resumable.largestRing
  have set : (if job.instructionSet.virtualMachine = 1 then
      InstructionSet.legacy (.ofNative ⟨job.nativeView.p, job.nativeView.a, job.nativeView.x⟩)
      else .native) = job.inPackage.instructionSet := by
    unfold inPackage
    cases job.instructionSet <;> rfl
  unfold load Processor.package
  dsimp only
  rw [key, machine, ring, set]
  have mode := resumable.mode
  unfold inPackage
  rw [mode]
  rfl

omit [Bus μ] [SlottedBus μ] in
theorem restores_load {job : Processor} (resumable : job.Resumable) (package : ExchangePackage)
    (source address : HalfWord) :
    job.Restores
      (((job.load package source true).reported.load job.package address false).reported) := by
  have loaded := load_package resumable package source address
    (job.load package source true).reported.pending
  change (job.load package source true).reported.load job.package address false = _ at loaded
  rw [loaded]
  exact ⟨_, rfl⟩

omit [Bus μ] [SlottedBus μ] in
theorem Restores.reproduces {job restored : Processor} (restores : job.Restores restored)
    (resumable : job.Resumable) (packable : job.Packable) : job.Reproduces restored := by
  obtain ⟨pending, rfl⟩ := restores
  rw [← load_package resumable job.package 0 0 pending]
  exact packable.reproduces _ 0

end Processor

namespace Routine

variable [Bus μ] {before : Processor} {memory : μ}

/-! ## Exchanges -/

theorem exchange_refused (refuses : before.Refuses memory) :
    (exchange.run before).perform memory = (((), before.refused), memory) := by
  rcases before.validate_candidate memory with ⟨-, error, invalid⟩ | ⟨accepted, -⟩
  · rw [perform_exchange, invalid]
  · exact absurd refuses accepted

theorem exchange_accepted (accepted : ¬ before.Refuses memory) :
    (exchange.run before).perform memory = (((), (before.exchanged memory).reported),
      ((Activity.writePackage before.exchangeDestination before.package).perform memory).2) := by
  rcases before.validate_candidate memory with ⟨refuses, -⟩ | ⟨-, valid⟩
  · exact absurd refuses accepted
  · rw [perform_exchange, valid, Processor.rescanned_eq_reported]

variable [SlottedBus μ]

theorem perform_writePackage (memory : μ) (address : HalfWord) (package : ExchangePackage) :
    (∀ place, SlottedBus.slot ((Activity.writePackage address package).perform memory).2 place =
      SlottedBus.slot memory place) ∧
    ∀ place, (∀ index < 58, SlottedBus.slot memory place ≠
        SlottedBus.slot memory (Activity.wordPlace (address.setWidth 64) index)) →
      Bus.readWord ((Activity.writePackage address package).perform memory).2 place =
        Bus.readWord memory place := by
  have written := Activity.perform_writeAll package.toWords.toList (address.setWidth 64) memory
  rw [Vector.length_toList] at written
  exact written

/-- The package to be loaded is not overwritten by the old state. -/
theorem candidate_stored (disjoint : before.AreasDisjoint memory) (package : ExchangePackage) :
    before.candidate ((Activity.writePackage before.exchangeDestination package).perform memory).2 =
      packageIn memory before.exchangeSource := by
  obtain ⟨-, others⟩ := perform_writePackage memory before.exchangeDestination package
  rw [Processor.candidate_eq]
  exact packageIn_congr fun index inside => others _ (disjoint index inside)

theorem exchanged_eq (disjoint : before.AreasDisjoint memory) :
    before.exchanged memory = before.load (packageIn memory before.exchangeSource)
      before.exchangeSource (!before.monitorMode) := by
  have stored := candidate_stored disjoint before.package
  have candidate := before.candidate_eq memory
  unfold Processor.exchanged
  dsimp only
  rw [stored, candidate]

theorem swaps_exchanged (holds : Activity.HoldsPackage memory before.exchangeDestination)
    (disjoint : before.AreasDisjoint memory) :
    before.Swaps memory (before.exchanged memory).reported
      ((Activity.writePackage before.exchangeDestination before.package).perform memory).2 := by
  obtain ⟨slots, others⟩ := perform_writePackage memory before.exchangeDestination before.package
  have tables (package : ExchangePackage) (source : HalfWord) (toMonitor : Bool) :
      let after := (before.load package source toMonitor).reported
      after.translation.pageTable = before.translation.pageTable ∧
        after.translation.pageTableLength = before.translation.pageTableLength ∧
        after.translation.pageSizeMask = before.translation.pageSizeMask := ⟨rfl, rfl, rfl⟩
  rw [exchanged_eq disjoint]
  obtain ⟨table, length, size⟩ := tables (packageIn memory before.exchangeSource)
    before.exchangeSource (!before.monitorMode)
  refine ⟨slots, holds.readWord before.package, others, rfl, rfl, rfl, fun job => ?_, rfl,
    table, length, size⟩
  change (if (!before.monitorMode) = true then before.exchangeSource else _) = _
  unfold Processor.exchangeSource
  rw [job]
  rfl

theorem exchange_to_job {job monitor : Processor} {later : μ} (mode : monitor.monitorMode = true)
    (ring : job.instructionSet = .native ∨ job.p.ring ≠ 1)
    (stored : packageIn later monitor.exchangeSource = job.package)
    (disjoint : monitor.AreasDisjoint later) :
    ∃ last, (exchange.run monitor).perform later =
      (((), (monitor.load job.package monitor.exchangeSource false).reported), last) := by
  have accepted : ¬ monitor.Refuses later := by
    have valid := (validate_package job monitor.exchangeSource).mpr ring
    rcases monitor.validate_candidate later with ⟨-, error, invalid⟩ | ⟨accepted, -⟩
    · rw [Processor.candidate_eq, stored, mode] at invalid
      exact absurd (valid.symm.trans invalid) (by rintro ⟨⟩)
    · exact accepted
  have loaded : monitor.exchanged later =
      monitor.load job.package monitor.exchangeSource false := by
    rw [exchanged_eq disjoint, stored, mode]
    rfl
  exact ⟨_, loaded ▸ exchange_accepted accepted⟩

theorem exchange_back {job after : Processor} {kept later : μ} (resumable : job.Resumable)
    (disjoint : job.AreasDisjoint memory) (swaps : job.Swaps memory after kept)
    (slots : ∀ address, SlottedBus.slot later address = SlottedBus.slot memory address)
    (untouched : ∀ index < 58, packageWord later job.exchangeDestination index =
      packageWord kept job.exchangeDestination index) :
    ∃ restored last, (exchange.run after).perform later = (((), restored), last) ∧
      job.Restores restored := by
  have monitor : after.monitorMode = true := by rw [swaps.mode, resumable.mode]; rfl
  have source : after.exchangeSource = job.exchangeDestination := by
    unfold Processor.exchangeSource Processor.exchangeDestination
    rw [monitor, resumable.mode, swaps.jobPackage]
    rfl
  have destination : after.exchangeDestination = job.exchangeSource := by
    unfold Processor.exchangeSource Processor.exchangeDestination
    rw [monitor, resumable.mode, swaps.monitorPackage resumable.mode]
    rfl
  have stored : packageIn later after.exchangeSource = job.package := by
    rw [source]
    exact packageIn_toWords fun index inside =>
      (untouched index inside).trans (swaps.written index inside)
  have still : after.AreasDisjoint later := by
    intro index inside other within same
    rw [slots, slots, source, destination] at same
    exact disjoint other within index inside same.symm
  obtain ⟨last, back⟩ := exchange_to_job monitor resumable.ring stored still
  refine ⟨_, last, back, ?_⟩
  rw [swaps.state, resumable.mode]
  exact Processor.restores_load resumable _ _ _

/-- An exchange is refused, and then nothing is changed but that the processor stops or a condition
is recorded; or it changes the mode. If the package areas are apart it then swaps the two states,
and an exchange back restores a job that was left. -/
theorem exchange_all_or_nothing (before : Processor) (memory : μ) :
    (before.Refuses memory → (exchange.run before).perform memory =
      (((), if before.monitorMode then
          { before with
            monitorConditions := before.monitorConditions |||
              ordinalBit MonitorCondition.environmentSpecification.ordinal
            pending := max before.pending
              (before.actionOf (.monitor .environmentSpecification)) }
        else { before with stopped := true }), memory)) ∧
    (¬ before.Refuses memory → ∃ after kept,
      (exchange.run before).perform memory = (((), after), kept) ∧
      after.monitorMode = !before.monitorMode ∧
      (Activity.HoldsPackage memory before.exchangeDestination → before.AreasDisjoint memory →
        before.Swaps memory after kept ∧
        (before.Resumable → ∀ later : μ,
          (∀ address, SlottedBus.slot later address = SlottedBus.slot memory address) →
          (∀ index < 58, packageWord later before.exchangeDestination index =
            packageWord kept before.exchangeDestination index) →
          ∃ restored last, (exchange.run after).perform later = (((), restored), last) ∧
            before.Restores restored ∧ (before.Packable → before.Reproduces restored)))) := by
  constructor
  · exact exchange_refused
  · intro accepted
    refine ⟨_, _, exchange_accepted accepted, rfl, fun holds disjoint => ?_⟩
    have swaps := swaps_exchanged holds disjoint
    refine ⟨swaps, fun resumable later slots untouched => ?_⟩
    obtain ⟨restored, last, back, restores⟩ :=
      exchange_back resumable disjoint swaps slots untouched
    exact ⟨restored, last, back, restores, restores.reproduces resumable⟩

def leavingJob : Processor := { olderJob with monitorPackage := 0x2000, jobPackage := 0x3000 }

theorem leavingJob_comes_back :
    ¬ leavingJob.Refuses packageMemory ∧ leavingJob.AreasDisjoint packageMemory ∧
      ∃ after kept restored last,
        (exchange.run leavingJob).perform packageMemory = (((), after), kept) ∧
        leavingJob.Swaps packageMemory after kept ∧
        (exchange.run after).perform kept = (((), restored), last) ∧
        leavingJob.Reproduces restored := by
  have accepted : ¬ leavingJob.Refuses packageMemory := by
    have machine : (packageWord packageMemory 0x2000 1).extractLsb' 60 4 = 0 := by decide +kernel
    rintro (above | ⟨one, -⟩)
    · exact absurd (machine ▸ above) (by decide)
    · exact absurd (machine ▸ one) (by decide)
  have holds : Activity.HoldsPackage packageMemory 0x3000 :=
    ⟨by decide +kernel, by decide +kernel⟩
  have disjoint : leavingJob.AreasDisjoint packageMemory := by
    unfold Processor.AreasDisjoint
    decide +kernel
  have within : olderRegisters.WithinWidths :=
    ⟨by decide, by decide, by decide, by decide, by decide, by decide⟩
  have packable : leavingJob.Packable := ⟨by decide, by decide, by decide, by
    rintro registers ⟨⟩
    exact ⟨within, by decide⟩⟩
  have resumable : leavingJob.Resumable :=
    ⟨rfl, by decide, by decide, by decide, .inr (by decide)⟩
  obtain ⟨-, completes⟩ := exchange_all_or_nothing leavingJob packageMemory
  obtain ⟨after, kept, left, -, swapping⟩ := completes accepted
  obtain ⟨swaps, back⟩ := swapping holds disjoint
  obtain ⟨restored, last, returned, -, reproduces⟩ :=
    back resumable kept swaps.slots fun _ _ => rfl
  exact ⟨accepted, disjoint, after, kept, restored, last, left, swaps, returned,
    reproduces packable⟩

end Routine

end Mainframe
