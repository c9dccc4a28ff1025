import Mainframe.Proofs.ExchangeOutcomes
import Mainframe.Proofs.TrapTransparency

/-! Jobs of the older instruction set that are left and come back. Their registers lie in the
native ones meanwhile, in a package or in the save area of a trap, and come back cut to their
widths. -/

set_option autoImplicit false

namespace Mainframe

variable {μ : Type} [Bus μ] [SlottedBus μ]

theorem VirtualAddress.byteNumber_ringAtLeast (address : VirtualAddress) (floor : Nat) :
    (address.ringAtLeast floor).byteNumber = address.byteNumber := by
  unfold ringAtLeast
  split <;> rfl

namespace LegacyRegisters

theorem ofNative_congr {native other : Native}
    (p : native.p.byteNumber = other.p.byteNumber)
    (a : ∀ index (inside : index < 16), native.a[index].byteNumber = other.a[index].byteNumber)
    (x : native.x = other.x) : ofNative native = ofNative other := by
  have addresses : (native.a.take 8).map (fun address =>
        (address.byteNumber.setWidth 18).setWidth 32) =
      (other.a.take 8).map fun address => (address.byteNumber.setWidth 18).setWidth 32 := by
    refine Vector.ext fun index inside => ?_
    rw [Vector.getElem_map, Vector.getElem_map, Vector.getElem_take, Vector.getElem_take,
      a index (by omega)]
  unfold ofNative
  rw [p, x, addresses]

end LegacyRegisters

namespace Processor

variable {job : Processor} {registers : LegacyRegisters}

omit [Bus μ] [SlottedBus μ] in
theorem nativeView_legacy (legacy : job.instructionSet = .legacy registers) :
    job.nativeView = registers.toNative job.p := by
  unfold nativeView
  rw [legacy]

omit [Bus μ] [SlottedBus μ] in
theorem instructionSet_load (legacy : job.instructionSet = .legacy registers)
    (monitor : Processor) (address : HalfWord) :
    (monitor.load job.package address false).instructionSet = .legacy registers.cut := by
  have machine : job.package.instructionMachine = 1 :=
    congrArg InstructionSet.virtualMachine legacy
  refine (if_pos machine).trans (congrArg InstructionSet.legacy ?_)
  change LegacyRegisters.ofNative job.nativeView = registers.cut
  rw [nativeView_legacy legacy, registers.ofNative_toNative_cut]

omit [Bus μ] [SlottedBus μ] in
theorem instructionSet_leaving {area : SaveArea} {zeroth first second third : Word}
    {addresses words : List Word} (callee : Processor) (full : area.range = .all)
    (older : area.virtualMachine = 1)
    (recovers : area.Recovers zeroth first second third addresses words) :
    (callee.leaving zeroth first second third addresses words).instructionSet =
      .legacy (.ofNative ⟨area.returnAddress, area.a, area.x⟩) := by
  have reaches : area.range.Reaches := full ▸ SavedRange.reaches_all
  have resumed := callee.resume_registers reaches recovers (callee.addressRegister 2)
    area.returnAddress
  have returned : (callee.returned zeroth first second third addresses words).instructionSet =
      .legacy (.ofNative ⟨area.returnAddress, area.a, area.x⟩) := by
    unfold Processor.returned
    rw [recovers.machine, if_pos older, recovers.returnAddress]
    refine congrArg InstructionSet.legacy (LegacyRegisters.ofNative_congr rfl ?_ ?_)
    · intro index inside
      obtain ⟨here, -⟩ := resumed (BitVec.ofNatLT index inside)
      rw [full, if_pos (SavedRange.mem_all _).1] at here
      exact (congrArg VirtualAddress.byteNumber here).trans
        (VirtualAddress.byteNumber_ringAtLeast _ _)
    · refine Vector.ext fun index inside => ?_
      obtain ⟨-, here⟩ := resumed (BitVec.ofNatLT index inside)
      rw [full, if_pos (SavedRange.mem_all _).2] at here
      exact here
  obtain ⟨_, _, _, _, same⟩ := callee.leaving_returned zeroth first second third addresses words
  rw [same]
  exact returned

end Processor

namespace Routine

variable {job : Processor} {registers : LegacyRegisters}

/-! ## By way of a package -/

/-- A job that an exchange has left for the monitor comes back by an exchange. The monitor may
have done anything but to change the package and to forget where it is. -/
theorem exchange_resumes_legacy {memory kept later : μ} {entered monitor : Processor}
    (legacy : job.instructionSet = .legacy registers) (mode : job.monitorMode = false)
    (ring : job.p.ring ≠ 1) (holds : Activity.HoldsPackage memory job.jobPackage)
    (left : (exchange.run job).perform memory = (((), entered), kept))
    (accepted : ¬ job.Refuses memory)
    (untouched : ∀ index < 58, packageWord later job.jobPackage index =
      packageWord kept job.jobPackage index)
    (monitorMode : monitor.monitorMode = true) (package : monitor.jobPackage = job.jobPackage)
    (disjoint : monitor.AreasDisjoint later) :
    ∃ restored last, (exchange.run monitor).perform later = (((), restored), last) ∧
      restored.instructionSet = .legacy registers.cut := by
  have destination : job.exchangeDestination = job.jobPackage := by
    unfold Processor.exchangeDestination
    rw [mode]
    rfl
  have source : monitor.exchangeSource = job.jobPackage := by
    unfold Processor.exchangeSource
    rw [monitorMode, package]
    rfl
  have written : kept =
      ((Activity.writePackage job.jobPackage job.package).perform memory).2 := by
    rw [exchange_accepted accepted, destination] at left
    exact (congrArg Prod.snd left).symm
  have stored : packageIn later monitor.exchangeSource = job.package := by
    rw [source]
    refine packageIn_toWords fun index inside => (untouched index inside).trans ?_
    rw [written]
    exact holds.readWord job.package index inside
  obtain ⟨last, back⟩ := exchange_to_job monitorMode (.inr ring) stored disjoint
  exact ⟨_, last, back, Processor.instructionSet_load legacy monitor monitor.exchangeSource⟩

/-! ## By way of the save area of a trap -/

omit [SlottedBus μ] in
theorem EntersHandler.frame {entered : Processor} {memory kept : μ}
    (enters : EntersHandler job memory entered kept) :
    entered.addressRegister 2 = job.nativeView.a.get 0 := by
  obtain ⟨handler, left, ending, rfl⟩ := enters
  obtain ⟨entry, top, between, -, -, -, rfl⟩ :=
    (Execution.enterHandler_orderly _ _).completed ending
  exact Processor.addressRegister_bound_activate _ _ _ _ _ _

/-- A handler that leaves its frame alone returns to the job that it interrupted. -/
theorem trap_resumes_legacy {memory kept present returned : μ} {entered later after : Processor}
    {instruction : Instruction} (legacy : job.instructionSet = .legacy registers)
    (apart : job.translation.SetsApart memory Processor.trapFrameLength
      (job.nativeView.a.get 0))
    (enters : EntersHandler job memory entered kept)
    (keeps : KeepsFrame entered kept Processor.trapFrameLength later present)
    (leaves : CarriesOut later present instruction after returned)
    (operation : Operation.ofOpcode instruction.opcode = some (.transfer .returnFromCall)) :
    after.instructionSet = .legacy registers.cut := by
  obtain ⟨area, same⟩ : ∃ area, area = job.withoutTraps.trapArea job.deliverableMonitor
    job.deliverableUser := ⟨_, rfl⟩
  have length : area.words.length = Processor.trapFrameLength :=
    same ▸ job.withoutTraps.length_trapArea _ _
  have stored : later.translation.wordsAt present area.words.length
      (later.addressRegister 2) = some area.words := by
    rw [length, keeps.frame, keeps.words, enters.frame, enters.wordsAt apart, same]
  have secluded : later.translation.Secludes present area.words.length
      (later.addressRegister 2) := by
    rw [length, keeps.frame]
    exact keeps.secluded
  have reaches : area.range.Reaches := same ▸ SavedRange.reaches_all
  obtain ⟨_, _, zeroth, first, second, third, addresses, words, recovers, rfl⟩ :=
    leaves.leaves operation reaches stored secluded
  have plain : job.withoutTraps.instructionSet = .legacy registers := legacy
  have older : area.virtualMachine = 1 := by
    rw [same]
    exact congrArg InstructionSet.virtualMachine plain
  refine (Processor.instructionSet_leaving _ (same ▸ rfl) older recovers).trans ?_
  rw [same]
  change InstructionSet.legacy (.ofNative job.withoutTraps.nativeView) = _
  rw [Processor.nativeView_legacy plain, registers.ofNative_toNative_cut]

/-- Registers of the older instruction set survive their stay in native ones cut to their widths.
Packing what was unpacked is idempotent, and a job comes back with the registers so cut, from its
package by way of the monitor and from the save area of a trap. -/
theorem legacy_registers_survive (registers : LegacyRegisters) :
    (∀ p, LegacyRegisters.ofNative (registers.toNative p) = registers.cut) ∧
    (∀ native p, let packed := (LegacyRegisters.ofNative native).toNative p
      (LegacyRegisters.ofNative packed).toNative p = packed ∧
        (LegacyRegisters.ofNative packed).toNative packed.p = packed) ∧
    ∀ (job : Processor) (memory : μ), job.instructionSet = .legacy registers → job.p.ring ≠ 1 →
      (job.monitorMode = false → Activity.HoldsPackage memory job.jobPackage →
        ¬ job.Refuses memory → ∀ entered kept,
        (exchange.run job).perform memory = (((), entered), kept) →
        ∀ (monitor : Processor) (later : μ),
          monitor.monitorMode = true → monitor.jobPackage = job.jobPackage →
          monitor.AreasDisjoint later →
          (∀ index < 58, packageWord later job.jobPackage index =
            packageWord kept job.jobPackage index) →
          ∃ restored last, (exchange.run monitor).perform later = (((), restored), last) ∧
            restored.instructionSet = .legacy registers.cut) ∧
      (job.translation.SetsApart memory Processor.trapFrameLength (job.nativeView.a.get 0) →
        ∀ entered kept, EntersHandler job memory entered kept →
        ∀ (later : Processor) (present : μ) instruction after returned,
          KeepsFrame entered kept Processor.trapFrameLength later present →
          CarriesOut later present instruction after returned →
          Operation.ofOpcode instruction.opcode = some (.transfer .returnFromCall) →
          after.instructionSet = .legacy registers.cut) := by
  refine ⟨registers.ofNative_toNative_cut, fun native p => ?_, ?_⟩
  · have again := LegacyRegisters.toNative_ofNative_toNative native p
    exact ⟨again, again⟩
  · intro job memory legacy ring
    constructor
    · intro mode holds accepted entered kept left monitor later monitorMode package disjoint
        untouched
      exact exchange_resumes_legacy legacy mode ring holds left accepted untouched monitorMode
        package disjoint
    · intro apart entered kept enters later present instruction after returned keeps leaves
        operation
      exact trap_resumes_legacy legacy apart enters keeps leaves operation

def wideRegisters : LegacyRegisters where
  p := 0xFFFC0005
  parcel := 0xFE
  a := Vector.replicate 8 0xFFFC00C0
  b := Vector.replicate 8 0xFFFE0001
  x := Vector.replicate 8 0xF7FFFFFFFFFFFFFF
  referenceAddress := 0xFF800000
  fieldLength := 0xFFFFFFFF
  exitMode := 0xFF000007
  extendedReference := 0xFF000012
  extendedLength := 0xFF000034
  monitorAddress := 0xFF000056

/-- Two jobs with such registers: one about to call its monitor, the other to be trapped. -/
def wideLeavingJob : Processor := { leavingJob with instructionSet := .legacy wideRegisters }

def wideTrappedJob : Processor := { trappedJob with instructionSet := .legacy wideRegisters }

def wideTrapEntered : Processor := ((enterTrap.run wideTrappedJob).perform trapMemory).1.2

def wideTrapKept : CyclicMemory := ((enterTrap.run wideTrappedJob).perform trapMemory).2

theorem wideRegisters_survive :
    wideRegisters.cut ≠ wideRegisters ∧
    (∃ entered kept restored last,
      (exchange.run wideLeavingJob).perform packageMemory = (((), entered), kept) ∧
      (exchange.run entered).perform kept = (((), restored), last) ∧
      restored.instructionSet = .legacy wideRegisters.cut) ∧
    ((stepNative.run wideTrapEntered).perform wideTrapKept).1.2.instructionSet =
      .legacy wideRegisters.cut := by
  obtain ⟨-, -, jobs⟩ := legacy_registers_survive (μ := CyclicMemory) wideRegisters
  refine ⟨by decide, ?_, ?_⟩
  · have accepted : ¬ wideLeavingJob.Refuses packageMemory := by
      have machine : (packageWord packageMemory 0x2000 1).extractLsb' 60 4 = 0 := by
        decide +kernel
      rintro (above | ⟨one, -⟩)
      · exact absurd (machine ▸ above) (by decide)
      · exact absurd (machine ▸ one) (by decide)
    have holds : Activity.HoldsPackage packageMemory wideLeavingJob.jobPackage :=
      ⟨by decide +kernel, by decide +kernel⟩
    obtain ⟨back, -⟩ := jobs wideLeavingJob packageMemory rfl (by decide)
    obtain ⟨restored, last, returned, resumed⟩ := back rfl holds accepted _ _ rfl
      ((exchange.run wideLeavingJob).perform packageMemory).1.2
      ((exchange.run wideLeavingJob).perform packageMemory).2
      (by decide +kernel) (by decide +kernel)
      (by unfold Processor.AreasDisjoint; decide +kernel)
      fun _ _ => rfl
    exact ⟨_, _, restored, last, rfl, returned, resumed⟩
  · obtain ⟨-, back⟩ := jobs wideTrappedJob trapMemory rfl (by decide)
    have entered : ((Execution.enterHandler wideTrappedJob.deliverableMonitor
        wideTrappedJob.deliverableUser).ending wideTrappedJob.withoutTraps trapMemory).1.1 =
      .ok ⟨11, 0, 8⟩ := by decide +kernel
    have apart : wideTrappedJob.translation.SetsApart trapMemory Processor.trapFrameLength
        (wideTrappedJob.nativeView.a.get 0) := by
      have mapped : wideTrappedJob.translation.areaPlaces trapMemory Processor.trapFrameLength
          (wideTrappedJob.nativeView.a.get 0) = some (run 272 0x20C0) := by decide +kernel
      exact .of_above 1024 mapped (by decide +kernel) (by decide +kernel) (by decide +kernel)
        (by decide +kernel)
    have leaves : CarriesOut wideTrapEntered wideTrapKept (.decode .jk 0x0400 0)
        ((stepNative.run wideTrapEntered).perform wideTrapKept).1.2
        ((stepNative.run wideTrapEntered).perform wideTrapKept).2 :=
      .of_completed (by decide +kernel) (by decide +kernel)
    have still : wideTrapEntered.translation.SetsApart wideTrapKept Processor.trapFrameLength
        (wideTrapEntered.addressRegister 2) := by
      have mapped : wideTrapEntered.translation.areaPlaces wideTrapKept
          Processor.trapFrameLength (wideTrapEntered.addressRegister 2) =
            some (run 272 0x20C0) := by decide +kernel
      exact .of_above 1024 mapped (by decide +kernel) (by decide +kernel) (by decide +kernel)
        (by decide +kernel)
    exact back apart _ _ (.of_entered entered) wideTrapEntered wideTrapKept _ _ _
      ⟨rfl, rfl, still.secludes⟩ leaves rfl

end Routine

end Mainframe
