import Mainframe.Proofs.Computations
import Mainframe.Proofs.FloatingSums
import Mathlib.Algebra.Order.Group.Basic

/-! The order of floating point words, which is that of the numbers they stand for. A difference of
words may be truncated, or be the greater of them, but always has the sign that goes with their
order. Comparisons and conditional branches therefore agree with subtraction. -/

set_option autoImplicit false

namespace Mainframe.FloatingPoint

/-! ## Magnitudes -/

theorem abs_lt_of_exponentOf_lt {x y : ℚ} (nonzero : y ≠ 0)
    (less : exponentOf x < exponentOf y) : |x| < |y| := by
  by_contra more
  have most := Int.log_mono_right (b := 2) (abs_pos.mpr nonzero) (not_lt.mp more)
  unfold exponentOf at less
  omega

variable {left right : Operand}

def compareMagnitudes (left right : Operand) : Ordering :=
  (compare left.exponent right.exponent).then (compare left.coefficient right.coefficient)

/-- The keys of negative operands are ordered as their magnitudes are the other way round. -/
theorem compareOperands_some (first : left.Normal) (second : right.Normal) :
    compareOperands (some left) (some right) =
      match left.negative, right.negative with
      | true, false => .lt
      | false, true => .gt
      | false, false => compareMagnitudes left right
      | true, true => compareMagnitudes right left := by
  have exponents : compare (-left.exponent) (-right.exponent) =
      compare right.exponent left.exponent := by
    have turned : StrictAnti fun exponent : Int => -exponent := fun _ _ => neg_lt_neg
    exact (cmp_eq_compare _ _).symm.trans ((turned.cmp_map_eq _ _).trans (cmp_eq_compare _ _))
  have coefficients :
      compare (Word.allOnes.toNat - left.coefficient) (Word.allOnes.toNat - right.coefficient) =
        compare right.coefficient left.coefficient := by
    have turned : StrictAntiOn (fun coefficient => Word.allOnes.toNat - coefficient)
        (Set.Iio (2 ^ 48)) := by
      intro less _ more inside below
      have inside : more < 2 ^ 48 := inside
      have whole : Word.allOnes.toNat = 2 ^ 64 - 1 := BitVec.toNat_allOnes
      dsimp only
      omega
    exact (cmp_eq_compare _ _).symm.trans
      ((turned.cmp_map_eq first.small second.small).trans (cmp_eq_compare _ _))
  dsimp only [compareOperands, orderKey, compareLex, compareOn, compareMagnitudes]
  cases left.negative <;> cases right.negative
  · rfl
  · rfl
  · rfl
  · rw [← exponents, ← coefficients]
    rfl

/-- Of normal operands the one with the greater exponent has the greater magnitude, and if the
exponents are the same, the one with the greater coefficient. -/
theorem compareMagnitudes_eq (first : left.Normal) (second : right.Normal) :
    compareMagnitudes left right = cmp |left.value| |right.value| := by
  unfold compareMagnitudes
  -- Normal coefficients are within a factor of two, so that different exponents decide.
  rcases lt_trichotomy left.exponent right.exponent with less | same | more
  · have order : |left.value| < |right.value| :=
      abs_lt_of_exponentOf_lt second.value_ne_zero
        (by rwa [first.exponentOf_value, second.exponentOf_value])
    rw [compare_lt_iff_lt.mpr less, order.cmp_eq_lt]
    rfl
  · have unit := zpow_pos (two_pos (α := ℚ)) (right.exponent - 48)
    rw [compare_eq_iff_eq.mpr same, left.abs_value, right.abs_value, same,
      cmp_mul_pos_right unit, Nat.strictMono_cast.cmp_map_eq, cmp_eq_compare]
    rfl
  · have order : |right.value| < |left.value| :=
      abs_lt_of_exponentOf_lt first.value_ne_zero
        (by rwa [first.exponentOf_value, second.exponentOf_value])
    rw [compare_gt_iff_gt.mpr more, order.cmp_eq_gt]
    rfl

/-! ## Values -/

theorem Operand.value_eq_signed (operand : Operand) :
    operand.value = signed operand.negative |operand.value| := by
  rw [operand.abs_value]
  rfl

theorem cmp_signed_zero (negative : Bool) {magnitude : ℚ} (positive : 0 < magnitude) :
    cmp (signed negative magnitude) 0 = if negative then .lt else .gt := by
  cases negative with
  | false => exact positive.cmp_eq_gt
  | true => exact (neg_lt_zero.mpr positive).cmp_eq_lt

theorem cmp_zero_signed (negative : Bool) {magnitude : ℚ} (positive : 0 < magnitude) :
    cmp 0 (signed negative magnitude) = if negative then .gt else .lt := by
  rw [← cmp_swap, cmp_signed_zero negative positive]
  cases negative <;> rfl

theorem cmp_signed_signed (first second : Bool) {left right : ℚ} (positive : 0 < left)
    (other : 0 < right) :
    cmp (signed first left) (signed second right) =
      match first, second with
      | true, false => .lt
      | false, true => .gt
      | false, false => cmp left right
      | true, true => cmp right left := by
  have below : -left < right := (neg_lt_zero.mpr positive).trans other
  have above : -right < left := (neg_lt_zero.mpr other).trans positive
  cases first <;> cases second
  · rfl
  · exact above.cmp_eq_gt
  · exact below.cmp_eq_lt
  · exact strictMono_id.neg.cmp_map_eq left right

theorem compareOperands_eq {x y : ℚ} {left right : Option Operand} (first : StandsFor x left)
    (second : StandsFor y right) : compareOperands left right = cmp x y := by
  cases first with
  | zero zero =>
    subst zero
    cases second with
    | zero zero =>
      subst zero
      rfl
    | operand right second same =>
      rw [← same, right.value_eq_signed,
        cmp_zero_signed _ (abs_pos.mpr second.value_ne_zero)]
      dsimp only [compareOperands, orderKey]
      cases right.negative <;> rfl
  | operand left first same =>
    rw [← same]
    cases second with
    | zero zero =>
      subst zero
      rw [left.value_eq_signed, cmp_signed_zero _ (abs_pos.mpr first.value_ne_zero)]
      dsimp only [compareOperands, orderKey]
      cases left.negative <;> rfl
    | operand right second standing =>
      rw [← standing, left.value_eq_signed, right.value_eq_signed, cmp_signed_signed _ _
        (abs_pos.mpr first.value_ne_zero) (abs_pos.mpr second.value_ne_zero),
        ← compareMagnitudes_eq first second, ← compareMagnitudes_eq second first,
        compareOperands_some first second]

theorem order_eq (left right : Word) :
    order left right =
      if IsIndefinite left ∨ IsIndefinite right then .error .indefinite
      else .ok (cmp (value left) (value right)) := by
  have outcome : Operates left right _ (order left right) :=
    operates left right fun first second => .ok (compareOperands first second)
  generalize order left right = result at outcome
  cases outcome with
  | indefinite either => rw [if_pos either]
  | definite first second definite others stands standing =>
    rw [if_neg (not_or.mpr ⟨definite, others⟩), compareOperands_eq stands standing]

/-! ## Differences -/

def signOrder (word : Word) : Ordering :=
  if word = 0 then .eq else if signBit word then .lt else .gt

theorem Normalized.signOrder_eq {word : Word} (normalized : Normalized word) :
    signOrder word = cmp (value word) 0 := by
  have leading := normalized.leading
  have nonzero : word ≠ 0 := by
    rintro rfl
    exact absurd leading (by decide)
  have some : (0 : ℚ) < coefficient word := Nat.cast_pos.mpr (by omega)
  have positive := mul_pos some (zpow_pos two_pos (biasedExponent word - bias - 48))
  rw [signOrder, if_neg nonzero, value, cmp_signed_zero _ positive]

theorem signOrder_zero : signOrder 0 = cmp (value 0) 0 := by
  have bits : coefficient 0 = 0 := by decide
  have zero : value 0 = 0 := by rw [value, bits, Nat.cast_zero, zero_mul, signed_eq_zero]
  rw [zero, cmp_self_eq_eq]
  rfl

theorem Truncates.signOrder_eq {number : ℚ} {word : Word} (truncates : Truncates word number) :
    signOrder word = cmp number 0 := by
  have nonzero : word ≠ 0 := by
    rintro rfl
    exact absurd truncates.normalized.leading (by decide)
  rw [signOrder, if_neg nonzero, truncates.sign]
  rcases lt_or_gt_of_ne truncates.ne_zero with less | more
  · rw [if_pos (decide_eq_true less), less.cmp_eq_lt]
  · rw [if_neg (by simp [more.le]), more.cmp_eq_gt]

theorem cmp_add_of_abs_lt {x y : ℚ} (less : |y| < |x|) : cmp (x + y) 0 = cmp x 0 := by
  obtain ⟨above, below⟩ := abs_lt.mp less
  rcases lt_trichotomy x 0 with negative | zero | positive
  · rw [abs_of_neg negative] at below
    have sum : x + y < 0 := by linarith
    rw [sum.cmp_eq_lt, negative.cmp_eq_lt]
  · rw [zero, abs_zero] at less
    exact absurd less (abs_nonneg y).not_gt
  · rw [abs_of_pos positive] at above
    have sum : 0 < x + y := by linarith
    rw [sum.cmp_eq_gt, positive.cmp_eq_gt]

/-- A sum that is a word has the sign of the exact sum, also where the smaller number is lost. -/
theorem SumLaw.signOrder_eq {left right word : Word} {x y : ℚ}
    (law : SumLaw left right x y (.ok word)) :
    signOrder word = cmp (value word) 0 ∧ signOrder word = cmp (x + y) 0 := by
  have definite : ¬ (IsIndefinite left ∨ IsIndefinite right) := fun either =>
    absurd (law.indefinite.mpr either) nofun
  obtain ⟨first, second⟩ := not_or.mp definite
  by_cases near : x = 0 ∨ y = 0 ∨ |exponentOf x - exponentOf y| ≤ 111
  · -- An exponent out of range is excluded, because the sum is a word.
    cases law.near first second near with
    | zero zero =>
      rw [zero, cmp_self_eq_eq]
      exact ⟨signOrder_zero, rfl⟩
    | word word truncates => exact ⟨truncates.normalized.signOrder_eq, truncates.signOrder_eq⟩
  obtain ⟨nonzero, other, apart⟩ := by simpa only [not_or, not_le] using near
  obtain ⟨found, returned, normalized, same⟩ := law.far first second nonzero other apart
  cases returned
  refine ⟨normalized.signOrder_eq, normalized.signOrder_eq.trans ?_⟩
  -- The sum is the greater number, whose sign the smaller one cannot change.
  rw [same]
  split
  next less => rw [cmp_add_of_abs_lt (abs_lt_of_exponentOf_lt nonzero less)]
  next more =>
    have differ : exponentOf x ≠ exponentOf y := fun equal => by
      rw [equal, sub_self, abs_zero] at apart
      omega
    rw [add_comm, cmp_add_of_abs_lt (abs_lt_of_exponentOf_lt other (by omega))]

theorem order_of_subtract {left right word : Word} (subtracts : subtract left right = .ok word) :
    order left right = .ok (signOrder word) ∧ signOrder word = cmp (value word) 0 := by
  have law := subtract_law left right
  rw [subtracts] at law
  have definite : ¬ (IsIndefinite left ∨ IsIndefinite right) := fun either =>
    absurd (law.indefinite.mpr either) nofun
  obtain ⟨sign, exact⟩ := law.signOrder_eq
  refine ⟨?_, sign⟩
  rw [order_eq, if_neg definite, exact, ← sub_eq_add_neg, cmp_sub_zero]

/-! ## The law of the order -/

/-- The order of two words is known, and does not have the first after the second. -/
def AtMost (left right : Word) : Prop :=
  ∃ outcome, order left right = .ok outcome ∧ outcome ≠ .gt

theorem atMost_iff {left right : Word} :
    AtMost left right ↔ ¬ IsIndefinite left ∧ ¬ IsIndefinite right ∧ value left ≤ value right := by
  unfold AtMost
  rw [order_eq]
  split
  next either =>
    refine ⟨fun ⟨_, fault, _⟩ => absurd fault nofun, fun ⟨first, second, _⟩ => ?_⟩
    exact absurd either (not_or.mpr ⟨first, second⟩)
  next definite =>
    obtain ⟨first, second⟩ := not_or.mp definite
    constructor
    · rintro ⟨outcome, returned, most⟩
      cases returned
      exact ⟨first, second, not_lt.mp fun less => most less.cmp_eq_gt⟩
    · exact fun ⟨_, _, most⟩ => ⟨_, rfl, fun more => not_lt.mpr most ((cmp_eq_gt_iff _ _).mp more)⟩

/-- What the order of words must be: that of their values, and so a total preorder of all words but
the indefinite ones, with which differences agree. -/
structure OrderLaw : Prop where
  indefinite (left right : Word) :
    order left right = .error .indefinite ↔ IsIndefinite left ∨ IsIndefinite right
  values (left right : Word) : ¬ IsIndefinite left → ¬ IsIndefinite right →
    order left right = .ok (cmp (value left) (value right))
  equal (left right : Word) : order left right = .ok .eq ↔
    ¬ IsIndefinite left ∧ ¬ IsIndefinite right ∧ value left = value right
  total (left right : Word) : ¬ IsIndefinite left → ¬ IsIndefinite right →
    AtMost left right ∨ AtMost right left
  trans (first second third : Word) : AtMost first second → AtMost second third →
    AtMost first third
  difference (left right word : Word) : subtract left right = .ok word →
    order left right = .ok (signOrder word) ∧ signOrder word = cmp (value word) 0

theorem order_law : OrderLaw where
  indefinite left right := by
    rw [order_eq]
    split
    next either => exact ⟨fun _ => either, fun _ => rfl⟩
    next definite => exact ⟨nofun, fun either => absurd either definite⟩
  values left right first second := by
    rw [order_eq, if_neg (not_or.mpr ⟨first, second⟩)]
  equal left right := by
    rw [order_eq]
    split
    next either =>
      exact ⟨nofun, fun ⟨first, second, _⟩ => absurd either (not_or.mpr ⟨first, second⟩)⟩
    next definite =>
      obtain ⟨first, second⟩ := not_or.mp definite
      rw [Except.ok.injEq, cmp_eq_eq_iff]
      exact ⟨fun same => ⟨first, second, same⟩, fun ⟨_, _, same⟩ => same⟩
  -- Among definite words the order is that of the values.
  total left right first second := by
    rw [atMost_iff, atMost_iff]
    exact (le_total (value left) (value right)).imp (⟨first, second, ·⟩) (⟨second, first, ·⟩)
  trans first second third := by
    rw [atMost_iff, atMost_iff, atMost_iff]
    exact fun ⟨definite, _, less⟩ ⟨_, others, most⟩ => ⟨definite, others, less.trans most⟩
  difference left right word := order_of_subtract

/-! ## Instructions -/

/-- Instructions that subtract the second of two registers from the first, compare the first with
the second, and branch if the first is in a relation to the second. -/
structure Comparing (subtracting comparing branching : Instruction) (relation : Relation)
    (first second : RegisterNumber) : Prop where
  subtracts : Operation.ofOpcode subtracting.opcode =
    some (.compute (.floating .subtract)) ∧ subtracting.k = first ∧ subtracting.j = second
  compares : Operation.ofOpcode comparing.opcode =
    some (.compute (.compare .floating)) ∧ comparing.j = first ∧ comparing.k = second
  branches : Operation.ofOpcode branching.opcode =
    some (.transfer (.branch .floating relation)) ∧ branching.j = first ∧ branching.k = second

/-- X1 tells an order, and the branch is taken if the relation holds for it. -/
structure GoesBy (processor : Processor) (comparing branching : Instruction) (relation : Relation)
    (order : Ordering) : Prop where
  told : (Execution.execute comparing).Settles processor ()
    (processor.withWordRegister 1 (orderWord order))
  taken : (Execution.execute branching).Settles processor () { processor with
    nextAddress := if relation.holds order then processor.displacedTarget branching
      else processor.nextAddress }

/-- What the three instructions do, each from the same state: all leave the condition of an
indefinite operand, or the comparison and the branch go by the sign of the difference, or by that of
the exact difference if its exponent is out of range. -/
inductive Compared (processor : Processor) (subtracting comparing branching : Instruction)
    (relation : Relation) (first second : RegisterNumber) : Prop where
  | indefinite
      (either : IsIndefinite (processor.wordRegister first) ∨
        IsIndefinite (processor.wordRegister second))
      (raises : ∀ instruction ∈ [subtracting, comparing, branching],
        (Execution.execute instruction).Settles processor ()
          (processor.raise (.user .floatingIndefinite)))
  | outside (fault : FloatFault) (definite : fault ≠ .indefinite)
      (subtracted : (Execution.execute subtracting).Settles processor ()
        (processor.raise (.user fault.condition)))
      (goes : GoesBy processor comparing branching relation
        (cmp (value (processor.wordRegister first)) (value (processor.wordRegister second))))
  | difference (word : Word)
      (subtracted : (Execution.execute subtracting).Settles processor ()
        (processor.withWordRegister first word))
      (goes : GoesBy processor comparing branching relation (signOrder word))

variable {subtracting comparing branching : Instruction} {relation : Relation}
  {first second : RegisterNumber}

namespace Comparing

variable (comparison : Comparing subtracting comparing branching relation first second)
  (processor : Processor)

include comparison

theorem subtract_settles : (Execution.execute subtracting).Settles processor ()
    (processor.receiving first ((subtract (processor.wordRegister first)
      (processor.wordRegister second)).mapError FloatFault.condition)) := by
  obtain ⟨assigned, rfl, rfl⟩ := comparison.subtracts
  exact Execution.execute_settles assigned rfl

theorem compare_settles : (Execution.execute comparing).Settles processor ()
    (processor.receiving 1 (((order (processor.wordRegister first)
      (processor.wordRegister second)).mapError FloatFault.condition).map orderWord)) := by
  obtain ⟨assigned, rfl, rfl⟩ := comparison.compares
  exact Execution.execute_settles assigned rfl

theorem branch_settles : (Execution.execute branching).Settles processor ()
    (match (order (processor.wordRegister first)
        (processor.wordRegister second)).mapError FloatFault.condition with
      | .ok order => { processor with
        nextAddress := if relation.holds order then processor.displacedTarget branching
          else processor.nextAddress }
      | .error condition => processor.raise (.user condition)) := by
  obtain ⟨assigned, rfl, rfl⟩ := comparison.branches
  rw [Execution.execute_transfer assigned]
  exact Execution.branch_settles .floating relation

theorem goesBy {outcome : Ordering} (ordered : order (processor.wordRegister first)
    (processor.wordRegister second) = .ok outcome) :
    GoesBy processor comparing branching relation outcome := by
  have compares := comparison.compare_settles processor
  have branches := comparison.branch_settles processor
  rw [ordered] at compares branches
  exact ⟨compares, branches⟩

theorem compared :
    Compared processor subtracting comparing branching relation first second := by
  have subtracts := comparison.subtract_settles processor
  have law := subtract_law (processor.wordRegister first) (processor.wordRegister second)
  by_cases either : IsIndefinite (processor.wordRegister first) ∨
    IsIndefinite (processor.wordRegister second)
  · have compares := comparison.compare_settles processor
    have branches := comparison.branch_settles processor
    rw [law.indefinite.mpr either] at subtracts
    rw [(order_law.indefinite _ _).mpr either] at compares branches
    refine .indefinite either ?_
    simp only [List.mem_cons, List.not_mem_nil, or_false, forall_eq_or_imp, forall_eq]
    exact ⟨subtracts, compares, branches⟩
  obtain ⟨definite, others⟩ := not_or.mp either
  -- A subtraction that leaves the range of exponents has no word to compare, but the order goes by
  -- values.
  cases result : subtract (processor.wordRegister first) (processor.wordRegister second) with
  | error fault =>
    rw [result] at subtracts law
    refine .outside fault ?_ subtracts (comparison.goesBy processor
      (order_law.values _ _ definite others))
    rintro rfl
    exact either (law.indefinite.mp rfl)
  | ok word =>
    rw [result] at subtracts
    exact .difference word subtracts (comparison.goesBy processor (order_of_subtract result).1)

end Comparing

/-- Words are ordered by their values, and no comparison or conditional branch contradicts a
subtraction. -/
theorem comparisons_agree :
    OrderLaw ∧ ∀ subtracting comparing branching relation first second,
      Comparing subtracting comparing branching relation first second → ∀ processor,
        Compared processor subtracting comparing branching relation first second :=
  ⟨order_law, fun _ _ _ _ _ _ comparison => comparison.compared⟩

def closeJob : Processor :=
  (Routine.smallJob.withWordRegister 1 0x3000800000000001).withWordRegister 2 0x3000800000000000

theorem closeJob_compared :
    Comparing (.decode .jk 0x3121 0) (.decode .jk 0x3C12 0) (.decode .jkQ 0x9A12 8) .greater 1 2 ∧
      Compared closeJob (.decode .jk 0x3121 0) (.decode .jk 0x3C12 0) (.decode .jkQ 0x9A12 8)
        .greater 1 2 := by
  have comparison : Comparing (.decode .jk 0x3121 0) (.decode .jk 0x3C12 0)
      (.decode .jkQ 0x9A12 8) .greater 1 2 :=
    ⟨⟨rfl, by decide, by decide⟩, ⟨rfl, by decide, by decide⟩, ⟨rfl, by decide, by decide⟩⟩
  exact ⟨comparison, comparisons_agree.2 _ _ _ _ _ _ comparison closeJob⟩

/-- A difference may have an exponent that is out of range, although its sign is known. -/
example : subtract 0x3000800000000001 0x3000800000000000 = .error .exponentUnderflow ∧
    order 0x3000800000000001 0x3000800000000000 = .ok .gt := by
  decide +kernel

end Mainframe.FloatingPoint
