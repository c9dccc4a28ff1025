import Mainframe.Processor.Conditions

/-! The interval timers. The system timer always runs, the process timer only in job mode. -/

set_option autoImplicit false

namespace Mainframe

/-- Count down, wrapping. The timer expires when it wraps or comes to zero. -/
def countDown (timer elapsed : HalfWord) : HalfWord × Bool :=
  let left := timer - elapsed
  (left, timer < left || left == 0)

theorem countDown_eq (timer elapsed : HalfWord) :
    countDown timer elapsed = (timer - elapsed, decide (timer.toNat ≤ elapsed.toNat)) := by
  have bounded := timer.isLt
  have counts := elapsed.isLt
  have left : (timer - elapsed).toNat = (2 ^ 32 - elapsed.toNat + timer.toNat) % 2 ^ 32 :=
    BitVec.toNat_sub _ _
  unfold countDown
  refine Prod.ext rfl ?_
  rw [Bool.eq_iff_iff]
  simp only [Bool.or_eq_true, decide_eq_true_eq, beq_iff_eq, BitVec.lt_def, ← BitVec.toNat_inj,
    left, BitVec.ofNat_eq_ofNat, BitVec.toNat_ofNat]
  omega

namespace Routine

def tick (elapsed : HalfWord) : Routine Unit := do
  if elapsed = 0 then return
  let (systemTimer, systemExpired) := countDown (← get).systemTimer elapsed
  modify fun processor => { processor with systemTimer }
  if systemExpired then raise (.monitor .systemIntervalTimer)
  let processor ← get
  if !processor.monitorMode then
    let (processTimer, processExpired) := countDown processor.processTimer elapsed
    set { processor with processTimer }
    if processExpired then raise (.user .processIntervalTimer)

end Routine

end Mainframe
