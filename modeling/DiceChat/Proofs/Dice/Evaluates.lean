import DiceChat.Dice.Evaluation

/-!
This file holds the courses that an evaluation can take, as rules. What holds of every evaluation
follows by induction over the rules, without opening the evaluator again.
-/

namespace DiceChat

/-- These are the rules of evaluation at a level below the root. A failure keeps the draws before
it, and what stands behind it is not evaluated. -/
inductive Evaluates :
    Nat → Expr → Generator → Except EvalError Evaluated → Generator → Prop where
  | tooDeep {level : Nat} {node : Expr} {generator : Generator}
      (below : maxEvaluationDepth < level) :
      Evaluates level node generator (.error (.tooDeep (UInt64.ofNat maxEvaluationDepth))) generator
  | num {level : Nat} {value : Int64} {generator : Generator}
      (reached : level ≤ maxEvaluationDepth) :
      Evaluates level (.num value) generator (.ok (.num value)) generator
  | tooManyDice {level : Nat} {counter face : UInt32} {generator : Generator}
      (reached : level ≤ maxEvaluationDepth) (many : maxDice < counter) :
      Evaluates level (.roll counter face) generator (.error (.tooManyDice counter maxDice))
        generator
  | zeroFace {level : Nat} {counter : UInt32} {generator : Generator}
      (reached : level ≤ maxEvaluationDepth) (few : ¬ maxDice < counter) :
      Evaluates level (.roll counter 0) generator (.error .zeroFace) generator
  | roll {level : Nat} {counter face : UInt32} {generator : Generator}
      (reached : level ≤ maxEvaluationDepth) (few : ¬ maxDice < counter) (sided : face ≠ 0) :
      Evaluates level (.roll counter face) generator
        (.ok (.ofSides counter face (generator.sampleMany face counter.toNat).1))
        (generator.sampleMany face counter.toNat).2
  | leftFails {level : Nat} {operator : Operator} {left right : Expr}
      {generator after : Generator} {error : EvalError} (reached : level ≤ maxEvaluationDepth)
      (leftFails : Evaluates (level + 1) left generator (.error error) after) :
      Evaluates level (.binary operator left right) generator (.error error) after
  | rightFails {level : Nat} {operator : Operator} {left right : Expr}
      {generator middle after : Generator} {first : Evaluated} {error : EvalError}
      (reached : level ≤ maxEvaluationDepth)
      (isLeft : Evaluates (level + 1) left generator (.ok first) middle)
      (rightFails : Evaluates (level + 1) right middle (.error error) after) :
      Evaluates level (.binary operator left right) generator (.error error) after
  | operatorFails {level : Nat} {operator : Operator} {left right : Expr}
      {generator middle after : Generator} {first second : Evaluated} {error : EvalError}
      (reached : level ≤ maxEvaluationDepth)
      (isLeft : Evaluates (level + 1) left generator (.ok first) middle)
      (isRight : Evaluates (level + 1) right middle (.ok second) after)
      (operatorFails : operator.apply first.value second.value = .error error) :
      Evaluates level (.binary operator left right) generator (.error error) after
  | binary {level : Nat} {operator : Operator} {left right : Expr}
      {generator middle after : Generator} {first second : Evaluated} {value : Int64}
      (reached : level ≤ maxEvaluationDepth)
      (isLeft : Evaluates (level + 1) left generator (.ok first) middle)
      (isRight : Evaluates (level + 1) right middle (.ok second) after)
      (applies : operator.apply first.value second.value = .ok value) :
      Evaluates level (.binary operator left right) generator
        (.ok (.binary operator first second value)) after

/-- The evaluator follows the rules. -/
theorem evaluates_evaluateAt (level : Nat) (node : Expr) (generator : Generator) :
    Evaluates level node generator (node.evaluateAt level generator).1
      (node.evaluateAt level generator).2 := by
  induction node generalizing level generator with
  | num value =>
      rw [Expr.evaluateAt]
      split
      · rename_i below
        exact .tooDeep below
      · rename_i reached
        exact .num (Nat.not_lt.mp reached)
  | roll counter face =>
      rw [Expr.evaluateAt]
      split
      · rename_i below
        exact .tooDeep below
      · rename_i reached
        split
        · rename_i many
          exact .tooManyDice (Nat.not_lt.mp reached) many
        · rename_i few
          split
          · rename_i zero
            subst zero
            exact .zeroFace (Nat.not_lt.mp reached) few
          · rename_i sided
            exact .roll (Nat.not_lt.mp reached) few sided
  | binary operator left right leftFollows rightFollows =>
      have isLeft := leftFollows (level + 1) generator
      rw [Expr.evaluateAt]
      split
      · rename_i below
        exact .tooDeep below
      · rename_i notBelow
        have reached := Nat.not_lt.mp notBelow
        generalize Expr.evaluateAt (level + 1) left generator = leftResult at isLeft ⊢
        match leftResult, isLeft with
        | (.error error, after), leftFails => exact .leftFails reached leftFails
        | (.ok first, middle), isLeft =>
            have isRight := rightFollows (level + 1) middle
            dsimp only
            generalize Expr.evaluateAt (level + 1) right middle = rightResult at isRight ⊢
            match rightResult, isRight with
            | (.error error, after), rightFails => exact .rightFails reached isLeft rightFails
            | (.ok second, after), isRight =>
                dsimp only
                cases applied : operator.apply first.value second.value with
                | error error => exact .operatorFails reached isLeft isRight applied
                | ok value => exact .binary reached isLeft isRight applied

end DiceChat
