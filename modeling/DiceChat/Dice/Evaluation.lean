import DiceChat.Dice.Formula
import DiceChat.Dice.Generator
import DiceChat.Text.Decimal

/-!
This file evaluates expressions. Values are 64-bit integers, and a result outside their range is
an error. The left operand is evaluated before the right one and each roll takes its samples in
order, so the draws follow the written expression.
-/

namespace DiceChat

/-- A single roll has at most this many dice. -/
def maxDice : UInt32 := 64

/-- An evaluated node lies at most this many levels below the root. -/
def maxEvaluationDepth : Nat := 64

/-- An evaluation fails for one of these causes. -/
inductive EvalError where
  | divisionByZero
  | overflow
  | zeroFace
  | tooManyDice (counter most : UInt32)
  | tooDeep (most : UInt64)
  deriving DecidableEq, Repr

/-- This is the wording of a failure. -/
def EvalError.message : EvalError → String
  | .divisionByZero => "division by zero"
  | .overflow => "arithmetic overflow"
  | .zeroFace => "a die must have at least one face"
  | .tooManyDice counter most =>
      "too many dice: " ++ String.ofList (Text.natural counter.toNat) ++
        " (at most " ++ String.ofList (Text.natural most.toNat) ++ ")"
  | .tooDeep most =>
      "expression nested deeper than " ++ String.ofList (Text.natural most.toNat) ++ " levels"

/-- An evaluated expression keeps every intermediate result. -/
inductive Evaluated where
  | num (value : Int64)
  | roll (counter face : UInt32) (values : List Int64) (value : Int64)
  | binary (operator : Operator) (left right : Evaluated) (value : Int64)
  deriving DecidableEq, Repr

namespace Evaluated

/-- This is the value at the root. -/
def value : Evaluated → Int64
  | .num value => value
  | .roll _ _ _ value => value
  | .binary _ _ _ value => value

/-- Several dice are listed one by one, and a single die shows its value only. -/
def listed : List Int64 → List Char
  | [] => []
  | [_] => []
  | values => '=' :: '[' ::
      [',', ' '].intercalate (values.map fun value => Text.integer value.toInt) ++ [']']

/-- This shows every intermediate result. -/
def render : Evaluated → List Char
  | .num value => Text.integer value.toInt
  | .roll counter face values value =>
      Text.natural counter.toNat ++ 'd' :: Text.natural face.toNat ++ listed values ++
        '=' :: Text.integer value.toInt
  | .binary operator left right value =>
      left.render ++ operator.symbol :: right.render ++ '=' :: Text.integer value.toInt

/-- This is the shown text as a string. -/
def display (evaluated : Evaluated) : String := String.ofList evaluated.render

end Evaluated

namespace Operator

/-- A quotient is rounded towards negative infinity. The most negative number has no quotient by
minus one. -/
def floorQuotient (left right : Int64) : Except EvalError Int64 :=
  if right = 0 then .error .divisionByZero
  else if left = Int64.minValue ∧ right = -1 then .error .overflow
  else if left % right ≠ 0 ∧ (left < 0 ↔ ¬ right < 0) then .ok (left / right - 1)
  else .ok (left / right)

/-- An operator gives its exact result or reports that it is out of range. -/
def apply (operator : Operator) (left right : Int64) : Except EvalError Int64 :=
  match operator with
  | .add =>
      if left.toBitVec.saddOverflow right.toBitVec then .error .overflow
      else .ok (left + right)
  | .sub =>
      if left.toBitVec.ssubOverflow right.toBitVec then .error .overflow
      else .ok (left - right)
  | .mul =>
      if left.toBitVec.smulOverflow right.toBitVec then .error .overflow
      else .ok (left * right)
  | .div => floorQuotient left right

end Operator

/-- The sides of a roll become values and their sum. -/
def Evaluated.ofSides (counter face : UInt32) (sides : List UInt32) : Evaluated :=
  let values := sides.map fun side => Int64.ofNat side.toNat
  .roll counter face values (values.foldl (· + ·) 0)

/-- This evaluates a node at a level below the root. A failure keeps the draws before it. -/
def Expr.evaluateAt (level : Nat) (expr : Expr) (generator : Generator) :
    Except EvalError Evaluated × Generator :=
  if maxEvaluationDepth < level then
    (.error (.tooDeep (UInt64.ofNat maxEvaluationDepth)), generator)
  else
    match expr with
    | .num value => (.ok (.num value), generator)
    | .roll counter face =>
        if maxDice < counter then (.error (.tooManyDice counter maxDice), generator)
        else if face = 0 then (.error .zeroFace, generator)
        else
          let sides := generator.sampleMany face counter.toNat
          (.ok (.ofSides counter face sides.1), sides.2)
    | .binary operator left right =>
        match evaluateAt (level + 1) left generator with
        | (.error error, after) => (.error error, after)
        | (.ok first, middle) =>
            match evaluateAt (level + 1) right middle with
            | (.error error, after) => (.error error, after)
            | (.ok second, after) =>
                match operator.apply first.value second.value with
                | .error error => (.error error, after)
                | .ok value => (.ok (.binary operator first second value), after)

/-- This evaluates a whole expression. -/
def Expr.evaluate (expr : Expr) (generator : Generator) :
    Except EvalError Evaluated × Generator :=
  Expr.evaluateAt 0 expr generator

/-- This evaluates an expression from a new generator. -/
def Expr.evaluateSeeded (expr : Expr) (seed : Seed) : Except EvalError Evaluated :=
  (expr.evaluate (Generator.ofSeed seed)).1

end DiceChat
