import Mathlib.Algebra.Ring.Int.Defs
import Mathlib.Tactic.ByContra
import Mathlib.Tactic.SplitIfs
import DiceChat.Dice.Evaluation

/-!
This file compares the arithmetic of an evaluation with the arithmetic of the integers. Operators
work on 64-bit numbers, and each gives its exact result whenever there is one that fits. Otherwise
it names the reason.
-/

namespace DiceChat

/-- A 64-bit number is one of these integers. -/
def FitsWord (value : Int) : Prop := -2 ^ 63 ≤ value ∧ value < 2 ^ 63

instance (value : Int) : Decidable (FitsWord value) := inferInstanceAs (Decidable (_ ∧ _))

theorem fitsWord_toInt (word : Int64) : FitsWord word.toInt := ⟨word.le_toInt, word.toInt_lt⟩

theorem toInt_ofInt_of_fits {value : Int} (fits : FitsWord value) :
    (Int64.ofInt value).toInt = value :=
  Int64.toInt_ofInt_of_le fits.1 fits.2

/-- A quotient is rounded down by one where there is a remainder and the signs differ. -/
theorem fdiv_eq_tdiv_of_signs {left right : Int} (divides : right ≠ 0) :
    left.fdiv right =
      left.tdiv right - if ¬ right ∣ left ∧ (left < 0 ↔ ¬ right < 0) then 1 else 0 := by
  rw [Int.fdiv_eq_tdiv]
  congr 1
  rcases Int.lt_or_gt_of_ne divides with negative | positive
  · rw [Int.sign_eq_neg_one_of_neg negative]
    split_ifs <;> omega
  · rw [Int.sign_eq_one_of_pos positive]
    split_ifs <;> omega

/-- A quotient of 64-bit numbers fits, except that the least of them has no opposite. -/
theorem fitsWord_fdiv_iff {left right : Int} (fits : FitsWord left) (divides : right ≠ 0) :
    FitsWord (left.fdiv right) ↔ ¬ (left = -2 ^ 63 ∧ right = -1) := by
  have bound := Int.natAbs_fdiv_le_natAbs left right
  have whole := Int.mul_fdiv_add_fmod left right
  obtain ⟨low, high⟩ := fits
  constructor
  · rintro ⟨-, below⟩ ⟨rfl, rfl⟩
    exact absurd below (by decide)
  · intro usual
    refine ⟨by omega, ?_⟩
    by_contra above
    have quotient : left.fdiv right = 2 ^ 63 := by omega
    have least : left = -2 ^ 63 := by omega
    rcases Int.lt_or_gt_of_ne divides with negative | positive
    · have remainder : left.fmod right ≤ 0 :=
        ((Int.fdiv_fmod_unique' (a := left) negative).mp ⟨rfl, rfl⟩).2.2
      rw [quotient] at whole
      exact usual ⟨least, by omega⟩
    · have remainder := Int.fmod_nonneg_of_pos left positive
      rw [quotient] at whole
      omega

namespace Operator

/-- This is the result of an operator on integers. A quotient is rounded down. -/
def exactResult : Operator → Int → Int → Int
  | .add, left, right => left + right
  | .sub, left, right => left - right
  | .mul, left, right => left * right
  | .div, left, right => left.fdiv right

/-- An operator fails on a zero divisor and on a result that does not fit. -/
def fault? (operator : Operator) (left right : Int) : Option EvalError :=
  if operator = .div ∧ right = 0 then some .divisionByZero
  else if FitsWord (operator.exactResult left right) then none
  else some .overflow

theorem divides_of_fault?_eq_none {operator : Operator} {left right : Int}
    (noFault : operator.fault? left right = none) : ¬ (operator = .div ∧ right = 0) := by
  intro zero
  rw [fault?, if_pos zero] at noFault
  exact absurd noFault (by simp)

/-- The quotient of 64-bit numbers is the exact one where it fits. -/
theorem floorQuotient_eq {left right : Int64} (divides : right ≠ 0)
    (usual : ¬ (left = Int64.minValue ∧ right = -1)) :
    floorQuotient left right = .ok (Int64.ofInt (left.toInt.fdiv right.toInt)) := by
  have quotient : Int64.ofInt (left.toInt.tdiv right.toInt) = left / right := by
    rw [Int64.ofInt_tdiv left.minValue_le_toInt left.toInt_le right.minValue_le_toInt
      right.toInt_le, Int64.ofInt_toInt, Int64.ofInt_toInt]
  have nonzero : right.toInt ≠ 0 := fun zero => divides (Int64.toInt_inj.mp zero)
  have rounds : (left % right ≠ 0 ∧ (left < 0 ↔ ¬ right < 0)) ↔
      ¬ right.toInt ∣ left.toInt ∧ (left.toInt < 0 ↔ ¬ right.toInt < 0) := by
    rw [Int64.lt_iff_toInt_lt, Int64.lt_iff_toInt_lt, Int.dvd_iff_tmod_eq_zero,
      ← Int64.toInt_mod, Ne, ← Int64.toInt_inj, Int64.toInt_zero]
  rw [floorQuotient, if_neg divides, if_neg usual, fdiv_eq_tdiv_of_signs nonzero,
    Int64.ofInt_sub, quotient]
  by_cases down : left % right ≠ 0 ∧ (left < 0 ↔ ¬ right < 0)
  · rw [if_pos down, if_pos (rounds.mp down)]
    rfl
  · rw [if_neg down, if_neg (rounds.not.mp down)]
    simp

/-- This is what an operator gives for its exact result. -/
def checked (value : Int) : Except EvalError Int64 :=
  if FitsWord value then .ok (Int64.ofInt value) else .error .overflow

/-- A test for overflow that tells whether the exact result fits gives the checked result. -/
theorem ite_eq_checked {overflows : Bool} {result : Int64} {value : Int}
    (same : result = Int64.ofInt value) (outside : overflows = true ↔ ¬ FitsWord value) :
    (if overflows = true then .error .overflow else .ok result) = checked value := by
  by_cases fits : FitsWord value
  · rw [checked, if_pos fits, if_neg (by simp [outside, fits]), same]
  · rw [checked, if_neg fits, if_pos (outside.mpr fits)]

theorem floorQuotient_eq_checked {left right : Int64} (divides : right ≠ 0) :
    floorQuotient left right = checked (left.toInt.fdiv right.toInt) := by
  have nonzero : right.toInt ≠ 0 := fun zero => divides (Int64.toInt_inj.mp zero)
  have fits := fitsWord_fdiv_iff (fitsWord_toInt left) nonzero
  have least : (left = Int64.minValue ∧ right = -1) ↔ left.toInt = -2 ^ 63 ∧ right.toInt = -1 := by
    rw [← Int64.toInt_inj, ← Int64.toInt_inj]
    rfl
  by_cases opposite : left = Int64.minValue ∧ right = -1
  · have outside := fits.not.mpr (not_not_intro (least.mp opposite))
    rw [floorQuotient, if_neg divides, if_pos opposite, checked, if_neg outside]
  · have inside := fits.mpr (least.not.mp opposite)
    rw [floorQuotient_eq divides opposite, checked, if_pos inside]

/-- An operator on 64-bit numbers gives the checked result of the operator on integers. Only a
division by zero has none. -/
theorem apply_eq_checked (operator : Operator) (left right : Int64) :
    operator.apply left right =
      if operator = .div ∧ right.toInt = 0 then .error .divisionByZero
      else checked (operator.exactResult left.toInt right.toInt) := by
  cases operator with
  | add =>
      rw [if_neg (by simp), apply]
      apply ite_eq_checked
      · rw [exactResult, Int64.ofInt_add, Int64.ofInt_toInt, Int64.ofInt_toInt]
      · simp only [BitVec.saddOverflow, Int64.toInt_toBitVec, Bool.or_eq_true, decide_eq_true_eq,
          FitsWord, exactResult]
        omega
  | sub =>
      rw [if_neg (by simp), apply]
      apply ite_eq_checked
      · rw [exactResult, Int64.ofInt_sub, Int64.ofInt_toInt, Int64.ofInt_toInt]
      · simp only [BitVec.ssubOverflow, Int64.toInt_toBitVec, Bool.or_eq_true, decide_eq_true_eq,
          FitsWord, exactResult]
        omega
  | mul =>
      rw [if_neg (by simp), apply]
      apply ite_eq_checked
      · rw [exactResult, Int64.ofInt_mul, Int64.ofInt_toInt, Int64.ofInt_toInt]
      · simp only [BitVec.smulOverflow, Int64.toInt_toBitVec, Bool.or_eq_true, decide_eq_true_eq,
          FitsWord, exactResult]
        omega
  | div =>
      by_cases zero : right = 0
      · subst zero
        rfl
      · have nonzero : right.toInt ≠ 0 := fun same => zero (Int64.toInt_inj.mp same)
        rw [if_neg fun both => nonzero both.2, apply, floorQuotient_eq_checked zero, exactResult]

/-- An operator gives an error exactly if it has that fault. -/
theorem apply_eq_error_iff {operator : Operator} {left right : Int64} {error : EvalError} :
    operator.apply left right = .error error ↔
      operator.fault? left.toInt right.toInt = some error := by
  rw [apply_eq_checked, fault?, checked]
  split_ifs <;> simp

/-- An operator without a fault gives its exact result. -/
theorem apply_eq_ok {operator : Operator} {left right value : Int64}
    (applies : operator.apply left right = .ok value) :
    operator.fault? left.toInt right.toInt = none ∧
      value.toInt = operator.exactResult left.toInt right.toInt := by
  rw [apply_eq_checked, checked] at applies
  rw [fault?]
  split_ifs at applies ⊢ with zero fits
  · obtain rfl := Except.ok.inj applies
    exact ⟨rfl, toInt_ofInt_of_fits fits⟩

end Operator

end DiceChat
