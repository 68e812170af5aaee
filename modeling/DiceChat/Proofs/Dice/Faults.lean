import DiceChat.Proofs.Dice.Arithmetic
import DiceChat.Proofs.Dice.Evaluates
import DiceChat.Proofs.Dice.Sampling

/-!
This file says what an evaluation gives, in the arithmetic of the integers. A result mirrors its
expression, and every number in it is exact. An error is the first fault on the way through the
expression: each node is entered before its operands, the left operand comes before the right one,
and the operator comes last.
-/

namespace DiceChat

/-- A result is exact for an expression if it has the same tree, every roll shows as many sides as
it has dice, and every value is the exact sum of its sides or the exact result of its operator. -/
inductive Evaluated.Exact : Expr → Evaluated → Prop where
  | num (value : Int64) : Exact (.num value) (.num value)
  | roll {counter face : UInt32} {values : List Int64} {value : Int64}
      (count : values.length = counter.toNat)
      (sides : ∀ side ∈ values, 1 ≤ side.toInt ∧ side.toInt ≤ face.toNat)
      (sum : value.toInt = (values.map Int64.toInt).sum) :
      Exact (.roll counter face) (.roll counter face values value)
  | binary {operator : Operator} {left right : Expr} {first second : Evaluated} {value : Int64}
      (isLeft : Exact left first) (isRight : Exact right second)
      (divides : ¬ (operator = .div ∧ second.value.toInt = 0))
      (isExact : value.toInt = operator.exactResult first.value.toInt second.value.toInt) :
      Exact (.binary operator left right) (.binary operator first second value)

/-- An expression has an exact value. Its rolls take their sides from the generator in turn. -/
def Expr.exactValue : Expr → Generator → Int × Generator
  | .num value, generator => (value.toInt, generator)
  | .roll counter face, generator =>
      let rolled := generator.sampleMany face counter.toNat
      (sumSides rolled.1, rolled.2)
  | .binary operator left right, generator =>
      let first := exactValue left generator
      let second := exactValue right first.2
      (operator.exactResult first.1 second.1, second.2)

/-- The way through an expression enters its nodes and applies its operators. -/
inductive Visit where
  | enter (level : Nat) (node : Expr)
  | operate (operator : Operator) (left right : Int)
  deriving DecidableEq, Repr

/-- A roll may have too many dice, or else dice without faces. -/
def Expr.rollFault? : Expr → Option EvalError
  | .num _ => none
  | .roll counter face =>
      if 64 < counter then some (.tooManyDice counter 64)
      else if face = 0 then some .zeroFace
      else none
  | .binary _ _ _ => none

/-- A visit finds a node too far below the root, a roll that cannot be made, or an operator without
a result. -/
def Visit.fault? : Visit → Option EvalError
  | .enter level node => if 64 < level then some (.tooDeep 64) else node.rollFault?
  | .operate operator left right => operator.fault? left right

/-- This is the way through an expression from a level on. -/
def Expr.visits : Nat → Expr → Generator → List Visit
  | level, .num value, _ => [.enter level (.num value)]
  | level, .roll counter face, _ => [.enter level (.roll counter face)]
  | level, .binary operator left right, generator =>
      let first := exactValue left generator
      let second := exactValue right first.2
      .enter level (.binary operator left right) :: visits (level + 1) left generator ++
        visits (level + 1) right first.2 ++ [.operate operator first.1 second.1]

/-- This is the first fault on the way. -/
def Expr.firstFault (level : Nat) (node : Expr) (generator : Generator) : Option EvalError :=
  (node.visits level generator).findSome? Visit.fault?

/-- A node too far below the root is a fault before anything in it. -/
theorem firstFault_of_lt {level : Nat} (below : maxEvaluationDepth < level) (node : Expr)
    (generator : Generator) : node.firstFault level generator = some (.tooDeep 64) := by
  have entered : Visit.fault? (.enter level node) = some (.tooDeep 64) := if_pos below
  cases node <;> simp [Expr.firstFault, Expr.visits, entered]

theorem firstFault_num {level : Nat} (reached : level ≤ maxEvaluationDepth) (value : Int64)
    (generator : Generator) : Expr.firstFault level (.num value) generator = none := by
  have entered : Visit.fault? (.enter level (.num value)) = none := if_neg (Nat.not_lt.mpr reached)
  rw [Expr.firstFault, Expr.visits, List.findSome?_singleton, entered]

theorem firstFault_roll {level : Nat} (reached : level ≤ maxEvaluationDepth)
    (counter face : UInt32) (generator : Generator) :
    Expr.firstFault level (.roll counter face) generator =
      Expr.rollFault? (.roll counter face) := by
  rw [Expr.firstFault, Expr.visits, List.findSome?_singleton]
  exact if_neg (Nat.not_lt.mpr reached)

/-- The first fault of an operation is in its left operand, else in its right operand, else that of
its operator. -/
theorem firstFault_binary {level : Nat} (reached : level ≤ maxEvaluationDepth) (operator : Operator)
    (left right : Expr) (generator : Generator) :
    Expr.firstFault level (.binary operator left right) generator =
      (left.firstFault (level + 1) generator).or
        ((right.firstFault (level + 1) (left.exactValue generator).2).or
          (operator.fault? (left.exactValue generator).1
            (right.exactValue (left.exactValue generator).2).1)) := by
  have entered : Visit.fault? (.enter level (.binary operator left right)) = none :=
    if_neg (Nat.not_lt.mpr reached)
  rw [Expr.firstFault, Expr.visits, List.append_assoc, List.cons_append, List.findSome?_cons,
    entered, List.findSome?_append, List.findSome?_append, List.findSome?_singleton]
  rfl

/-- The sides that a roll takes from the generator are exact. -/
theorem exact_ofSides {counter face : UInt32} (few : ¬ maxDice < counter) (sided : face ≠ 0)
    (generator : Generator) :
    (Evaluated.ofSides counter face (generator.sampleMany face counter.toNat).1).Exact
        (.roll counter face) ∧
      (Evaluated.ofSides counter face
        (generator.sampleMany face counter.toNat).1).value.toInt =
          sumSides (generator.sampleMany face counter.toNat).1 := by
  have count := Generator.length_sampleMany face counter.toNat generator
  have range := Generator.sampleMany_range sided counter.toNat generator
  have small : counter.toNat ≤ 64 := UInt32.le_iff_toNat_le.mp (UInt32.not_lt.mp few)
  have sum := toInt_ofSides (by rwa [count]) counter face
  refine ⟨.roll ?_ ?_ ?_, sum⟩
  · rw [List.length_map, count]
  · intro value member
    obtain ⟨side, isSide, rfl⟩ := List.mem_map.mp member
    have bounds := range side isSide
    rw [toInt_side]
    omega
  · rw [sum_toInt_sides]
    exact sum

/-- An account of an evaluation: a result is exact and without a fault, and an error is the first
fault. -/
def Accounted (level : Nat) (node : Expr) (generator : Generator) :
    Except EvalError Evaluated → Generator → Prop
  | .ok result, after =>
      result.Exact node ∧ node.exactValue generator = (result.value.toInt, after) ∧
        node.firstFault level generator = none
  | .error error, _ => node.firstFault level generator = some error

/-- Every evaluation has its account. -/
theorem Evaluates.accounted {level : Nat} {node : Expr} {generator after : Generator}
    {result : Except EvalError Evaluated}
    (evaluates : Evaluates level node generator result after) :
    Accounted level node generator result after := by
  induction evaluates with
  | tooDeep below => exact firstFault_of_lt below _ _
  | num reached => exact ⟨.num _, rfl, firstFault_num reached _ _⟩
  | tooManyDice reached many =>
      rw [Accounted, firstFault_roll reached]
      exact if_pos many
  | zeroFace reached few =>
      rw [Accounted, firstFault_roll reached]
      exact (if_neg few).trans (if_pos rfl)
  | roll reached few sided =>
      obtain ⟨isExact, sum⟩ := exact_ofSides few sided _
      refine ⟨isExact, ?_, ?_⟩
      · rw [Expr.exactValue, sum]
      · rw [firstFault_roll reached]
        exact (if_neg few).trans (if_neg sided)
  | leftFails reached _ leftFault =>
      rw [Accounted] at leftFault ⊢
      rw [firstFault_binary reached, leftFault, Option.some_or]
  | rightFails reached _ _ leftExact rightFault =>
      obtain ⟨-, isFirst, noFault⟩ := leftExact
      rw [Accounted] at rightFault ⊢
      rw [firstFault_binary reached, noFault, isFirst, rightFault, Option.none_or, Option.some_or]
  | operatorFails reached _ _ operatorFails leftExact rightExact =>
      obtain ⟨-, isFirst, noLeft⟩ := leftExact
      obtain ⟨-, isSecond, noRight⟩ := rightExact
      have fault := Operator.apply_eq_error_iff.mp operatorFails
      rw [Accounted, firstFault_binary reached, noLeft, isFirst, noRight, isSecond, fault,
        Option.none_or, Option.none_or]
  | binary reached _ _ applies leftExact rightExact =>
      obtain ⟨leftMirrors, isFirst, noLeft⟩ := leftExact
      obtain ⟨rightMirrors, isSecond, noRight⟩ := rightExact
      obtain ⟨noFault, isExact⟩ := Operator.apply_eq_ok applies
      have divides := Operator.divides_of_fault?_eq_none noFault
      refine ⟨.binary leftMirrors rightMirrors divides isExact, ?_, ?_⟩
      · rw [Expr.exactValue, isFirst, isSecond, Evaluated.value, isExact]
      · rw [firstFault_binary reached, noLeft, isFirst, noRight, isSecond, noFault]
        rfl

/-- Every result of an evaluation is exact for its expression, and an evaluation gives an error
exactly if that is the first fault on the way through the expression. -/
theorem evaluate_exact (node : Expr) (generator : Generator) :
    (∀ result, (node.evaluate generator).1 = .ok result → result.Exact node) ∧
      ∀ error, (node.evaluate generator).1 = .error error ↔
        node.firstFault 0 generator = some error := by
  have accounted := (evaluates_evaluateAt 0 node generator).accounted
  rw [Expr.evaluate]
  cases isResult : (node.evaluateAt 0 generator).1 with
  | ok result =>
      rw [isResult] at accounted
      obtain ⟨mirrors, -, noFault⟩ := accounted
      refine ⟨?_, ?_⟩
      · intro other same
        obtain rfl := Except.ok.inj same
        exact mirrors
      · intro error
        simp [noFault]
  | error first =>
      rw [isResult] at accounted
      have isFirst : node.firstFault 0 generator = some first := accounted
      refine ⟨?_, ?_⟩
      · intro result same
        exact absurd same (by simp)
      · intro error
        simp [isFirst]

/-- A negative quotient is rounded down, and of two faults the left one counts. -/
theorem evaluate_exact_quotients :
    (Expr.evaluate (.binary .div (.num (-7)) (.num 2)) ⟨7, 0⟩).1 =
        .ok (.binary .div (.num (-7)) (.num 2) (-4)) ∧
      (Evaluated.binary .div (.num (-7)) (.num 2) (-4)).Exact
        (.binary .div (.num (-7)) (.num 2)) ∧
      Expr.firstFault 0 (.binary .add (.binary .div (.num 1) (.num 0)) (.roll 65 6)) ⟨7, 0⟩ =
        some .divisionByZero :=
  ⟨rfl, (evaluate_exact _ ⟨7, 0⟩).1 _ rfl, ((evaluate_exact _ ⟨7, 0⟩).2 _).mp rfl⟩

end DiceChat
