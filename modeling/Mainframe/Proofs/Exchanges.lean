import Mainframe.Exchange.Swap
import Mainframe.Proofs.Transfers

/-! The conduct of exchanges. The package to be loaded is looked at before anything is changed; a
package that is refused leaves memory alone. -/

set_option autoImplicit false

namespace Mainframe

variable {μ : Type}

namespace Activity

theorem readVector_reads (address : Address) (count : Nat) :
    (readVector address count).OnlyReads := by
  induction count with
  | zero => exact .pure _
  | succ count ih => exact .bind ih fun words => .bind (.readWord _) fun word => .pure _

theorem readPackage_reads (address : HalfWord) : (readPackage address).OnlyReads :=
  .bind (readVector_reads _ _) fun _ => .pure _

end Activity

namespace Processor

def exchangeSource (processor : Processor) : HalfWord :=
  if processor.monitorMode then processor.jobPackage else processor.monitorPackage

def exchangeDestination (processor : Processor) : HalfWord :=
  if processor.monitorMode then processor.monitorPackage else processor.jobPackage

def candidate [Bus μ] (processor : Processor) (memory : μ) : ExchangePackage :=
  ((Activity.readPackage processor.exchangeSource).perform memory).1

def refused (processor : Processor) : Processor :=
  if processor.monitorMode then processor.raise (.monitor .environmentSpecification)
  else { processor with stopped := true }

/-- The state that an exchange takes over, before conditions are looked at again. -/
def exchanged [Bus μ] (processor : Processor) (memory : μ) : Processor :=
  let stored := ((Activity.writePackage processor.exchangeDestination
    processor.package).perform memory).2
  processor.load
    { processor.candidate stored with
      instructionMachine := (processor.candidate memory).instructionMachine }
    processor.exchangeSource !processor.monitorMode

end Processor

namespace Routine

theorem perform_liftM {α β : Type} [Bus μ] (activity : Activity α) (processor : Processor)
    (continuation : α → Routine β) (memory : μ) :
    ((liftM activity >>= continuation).run processor).perform memory =
      ((continuation (activity.perform memory).1).run processor).perform
        (activity.perform memory).2 := by
  rw [StateT.run_bind, Activity.perform_bind]
  have lifted : ((liftM activity : Routine α).run processor) =
      activity >>= fun result => pure (result, processor) := rfl
  rw [lifted, Activity.perform_bind]
  rfl

theorem perform_storePackage {β : Type} [Bus μ] (address : HalfWord) (processor : Processor)
    (continuation : Unit → Routine β) (memory : μ) :
    ((storePackage address >>= continuation).run processor).perform memory =
      ((continuation ()).run processor).perform
        ((Activity.writePackage address processor.package).perform memory).2 := by
  unfold storePackage
  rw [bind_assoc, StateT.run_bind, StateT.run_get, pure_bind]
  exact perform_liftM _ _ _ _

theorem perform_enter [Bus μ] (left entered : Processor) (legacy : Bool) (happening : Happening)
    (memory : μ) :
    ((do
      set entered
      if legacy then report .legacyCodeChanged
      report happening
      rescan : Routine Unit).run left).perform memory = (((), entered.rescanned), memory) := by
  have rest : ((do report happening; rescan : Routine Unit).run entered).Reports
      ((), entered.rescanned) :=
    .bind (.notify _ (.done _)) (Execution.forM_raise_reports _ _)
  cases legacy with
  | true => exact (Activity.Reports.notify _ rest).perform_eq _
  | false => exact rest.perform_eq _

theorem perform_exchange [Bus μ] (processor : Processor) (memory : μ) :
    (exchange.run processor).perform memory =
      match (processor.candidate memory).validate processor.exchangeSource
          !processor.monitorMode with
      | .error _ => (((), processor.refused), memory)
      | .ok () => (((), (processor.exchanged memory).rescanned),
          ((Activity.writePackage processor.exchangeDestination
            processor.package).perform memory).2) := by
  -- The mode decides which of the two areas is read and which is written.
  have source : (if (!processor.monitorMode) = true then processor.monitorPackage
      else processor.jobPackage) = processor.exchangeSource := by
    unfold Processor.exchangeSource
    cases processor.monitorMode <;> rfl
  have destination : (if (!processor.monitorMode) = true then processor.jobPackage
      else processor.monitorPackage) = processor.exchangeDestination := by
    unfold Processor.exchangeDestination
    cases processor.monitorMode <;> rfl
  have reads := Activity.readPackage_reads processor.exchangeSource
  have found : ((Activity.readPackage processor.exchangeSource).perform memory).1 =
    processor.candidate memory := rfl
  unfold exchange
  rw [StateT.run_bind, StateT.run_get, pure_bind]
  dsimp only
  rw [source, destination, perform_liftM, reads.perform_memory, found]
  rcases (processor.candidate memory).validate processor.exchangeSource !processor.monitorMode with
    error | _
  · unfold Processor.refused
    cases processor.monitorMode <;> rfl
  · dsimp only
    rw [perform_storePackage, perform_liftM, reads.perform_memory]
    unfold Processor.exchanged Processor.candidate
    dsimp only
    generalize processor.load _ _ _ = entered
    exact perform_enter _ _ _ _ _

end Routine

end Mainframe
