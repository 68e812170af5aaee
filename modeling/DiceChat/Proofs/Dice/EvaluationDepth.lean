import DiceChat.Dice.Evaluation

/-!
This file compares the depth of an expression with the levels that its evaluation may reach. A
tree that fits is never too deep, and a deeper one never has a result.
-/

namespace DiceChat

/-- Operators do not complain about the depth. -/
theorem Operator.apply_ne_tooDeep (operator : Operator) (left right : Int64) (most : UInt64) :
    operator.apply left right ≠ .error (.tooDeep most) := by
  cases operator with
  | add =>
      rw [apply]
      split <;> simp
  | sub =>
      rw [apply]
      split <;> simp
  | mul =>
      rw [apply]
      split <;> simp
  | div =>
      rw [apply, floorQuotient]
      split
      · simp
      · split
        · simp
        · split <;> simp

namespace Expr

section

variable {level : Nat} {operator : Operator} {left right : Expr} {generator : Generator}

/-- A node below the last level fails at once. -/
theorem evaluateAt_of_lt (node : Expr) (below : maxEvaluationDepth < level) :
    evaluateAt level node generator =
      (.error (.tooDeep (UInt64.ofNat maxEvaluationDepth)), generator) := by
  rw [evaluateAt.eq_def, if_pos below]

/-- A failure above the last level is the failure of an operand or of the operator. -/
theorem evaluateAt_binary_error {error : EvalError} (reached : level ≤ maxEvaluationDepth)
    (failed : (evaluateAt level (.binary operator left right) generator).1 = .error error) :
    (evaluateAt (level + 1) left generator).1 = .error error ∨
      (∃ middle, (evaluateAt (level + 1) right middle).1 = .error error) ∨
      ∃ first second, operator.apply first second = .error error := by
  rw [evaluateAt, if_neg (Nat.not_lt.mpr reached)] at failed
  split at failed
  · rename_i leftFailed
    exact .inl (by rw [leftFailed]; exact failed)
  · rename_i first middle isFirst
    split at failed
    · rename_i rightFailed
      exact .inr (.inl ⟨middle, by rw [rightFailed]; exact failed⟩)
    · split at failed
      · rename_i operatorFailed
        obtain rfl := Except.error.inj failed
        exact .inr (.inr ⟨_, _, operatorFailed⟩)
      · exact absurd failed (by simp)

/-- A result above the last level has results of both operands. -/
theorem evaluateAt_binary_ok {result : Evaluated} (reached : level ≤ maxEvaluationDepth)
    (found : (evaluateAt level (.binary operator left right) generator).1 = .ok result) :
    (∃ first, (evaluateAt (level + 1) left generator).1 = .ok first) ∧
      ∃ middle second, (evaluateAt (level + 1) right middle).1 = .ok second := by
  rw [evaluateAt, if_neg (Nat.not_lt.mpr reached)] at found
  split at found
  · exact absurd found (by simp)
  · rename_i first middle isFirst
    split at found
    · exact absurd found (by simp)
    · rename_i second after isSecond
      exact ⟨⟨first, by rw [isFirst]⟩, middle, second, by rw [isSecond]⟩

end

/-- A node whose tree ends above the last level is never too deep. -/
theorem evaluateAt_ne_tooDeep {level : Nat} {node : Expr}
    (fits : level + node.depth ≤ maxEvaluationDepth) (generator : Generator) (most : UInt64) :
    (evaluateAt level node generator).1 ≠ .error (.tooDeep most) := by
  have reached : level ≤ maxEvaluationDepth := by omega
  induction node generalizing level generator with
  | num value => simp [evaluateAt, Nat.not_lt.mpr reached]
  | roll counter face =>
      rw [evaluateAt, if_neg (Nat.not_lt.mpr reached)]
      split
      · simp
      · split <;> simp
  | binary operator left right leftFits rightFits =>
      intro failed
      simp only [Formula.depth] at fits
      have deeper : level + 1 ≤ maxEvaluationDepth := by omega
      have leftBound : level + 1 + left.depth ≤ maxEvaluationDepth := by omega
      have rightBound : level + 1 + right.depth ≤ maxEvaluationDepth := by omega
      rcases evaluateAt_binary_error reached failed with
        leftFailed | ⟨middle, rightFailed⟩ | ⟨first, second, operatorFailed⟩
      · exact leftFits leftBound generator deeper leftFailed
      · exact rightFits rightBound middle deeper rightFailed
      · exact operator.apply_ne_tooDeep first second most operatorFailed

/-- A node whose tree reaches below the last level has no result. -/
theorem evaluateAt_ne_ok {level : Nat} {node : Expr}
    (deep : maxEvaluationDepth < level + node.depth) (generator : Generator)
    (result : Evaluated) : (evaluateAt level node generator).1 ≠ .ok result := by
  induction node generalizing level generator result with
  | num value =>
      have below : maxEvaluationDepth < level := deep
      rw [evaluateAt_of_lt _ below]
      simp
  | roll counter face =>
      have below : maxEvaluationDepth < level := deep
      rw [evaluateAt_of_lt _ below]
      simp
  | binary operator left right leftDeep rightDeep =>
      by_cases below : maxEvaluationDepth < level
      · rw [evaluateAt_of_lt _ below]
        simp
      · intro found
        obtain ⟨⟨first, isFirst⟩, middle, second, isSecond⟩ :=
          evaluateAt_binary_ok (Nat.not_lt.mp below) found
        have deeper : maxEvaluationDepth < level + 1 + left.depth ∨
            maxEvaluationDepth < level + 1 + right.depth := by
          simp only [Formula.depth] at deep
          omega
        rcases deeper with inLeft | inRight
        · exact leftDeep inLeft generator first isFirst
        · exact rightDeep inRight middle second isSecond

end Expr

end DiceChat
