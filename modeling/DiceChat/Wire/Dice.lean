import DiceChat.Dice.Outcome
import DiceChat.Wire.Variant

/-!
This file stores expressions, their results and their failures as JSON.
-/

namespace DiceChat

def Seed.toJson (seed : Seed) : Json := .ofUInt32 seed.value

def Seed.ofJson? (json : Json) : Option Seed := json.toUInt32?.map Seed.mk

/-- An operator is stored as its symbol. -/
def Operator.toJson (operator : Operator) : Json := .str (String.singleton operator.symbol)

def Operator.ofSymbol? : String → Option Operator
  | "+" => some .add
  | "-" => some .sub
  | "×" => some .mul
  | "÷" => some .div
  | _ => none

def Operator.ofJsonAt? (place : Json.Place) (json : Json) : Option Operator :=
  (json.toName? place).bind ofSymbol?

def Operator.ofJson? (json : Json) : Option Operator := Operator.ofJsonAt? .outer json

def Expr.shapes : Json.Shapes :=
  [("Num", ["value"]), ("Roll", ["counter", "face"]), ("Binary", ["op", "l", "r"])]

def Expr.toJson : Expr → Json
  | .num value => .tagged "type" "Num" [("value", .ofInt64 value)]
  | .roll counter face =>
      .tagged "type" "Roll" [("counter", .ofUInt32 counter), ("face", .ofUInt32 face)]
  | .binary operator left right =>
      .tagged "type" "Binary"
        [("op", operator.toJson), ("l", Expr.toJson left), ("r", Expr.toJson right)]

/-- The operands of an expression are fields. -/
def Expr.ofJsonAt? (place : Json.Place) (json : Json) : Option Expr :=
  match _ : json.variant "type" place Expr.shapes with
  | some ("Num", [value]) => value.toInt64?.map .num
  | some ("Roll", [counter, face]) => do
      return .roll (← counter.toUInt32?) (← face.toUInt32?)
  | some ("Binary", [operator, left, right]) => do
      return .binary (← Operator.ofJsonAt? .field operator) (← Expr.ofJsonAt? .field left)
        (← Expr.ofJsonAt? .field right)
  | _ => none
termination_by sizeOf json
decreasing_by all_goals exact Json.sizeOf_variant (by assumption) (by simp)

def Expr.ofJson? (json : Json) : Option Expr := Expr.ofJsonAt? .outer json

def Evaluated.shapes : Json.Shapes :=
  [("Num", ["value"]), ("Roll", ["counter", "face", "values", "value"]),
    ("Binary", ["op", "l", "r", "value"])]

def Evaluated.toJson : Evaluated → Json
  | .num value => .tagged "type" "Num" [("value", .ofInt64 value)]
  | .roll counter face values value =>
      .tagged "type" "Roll"
        [("counter", .ofUInt32 counter), ("face", .ofUInt32 face),
          ("values", .arr (values.map Json.ofInt64)), ("value", .ofInt64 value)]
  | .binary operator left right value =>
      .tagged "type" "Binary"
        [("op", operator.toJson), ("l", left.toJson), ("r", right.toJson),
          ("value", .ofInt64 value)]

/-- The operands of an evaluated expression are fields. -/
def Evaluated.ofJsonAt? (place : Json.Place) (json : Json) : Option Evaluated :=
  match _ : json.variant "type" place Evaluated.shapes with
  | some ("Num", [value]) => value.toInt64?.map .num
  | some ("Roll", [counter, face, values, value]) => do
      let items ← values.toArray?
      return .roll (← counter.toUInt32?) (← face.toUInt32?) (← items.mapM Json.toInt64?)
        (← value.toInt64?)
  | some ("Binary", [operator, left, right, value]) => do
      return .binary (← Operator.ofJsonAt? .field operator) (← Evaluated.ofJsonAt? .field left)
        (← Evaluated.ofJsonAt? .field right) (← value.toInt64?)
  | _ => none
termination_by sizeOf json
decreasing_by all_goals exact Json.sizeOf_variant (by assumption) (by simp)

def Evaluated.ofJson? (json : Json) : Option Evaluated := Evaluated.ofJsonAt? .outer json

def EvalError.shapes : Json.Shapes :=
  [("DivisionByZero", []), ("Overflow", []), ("ZeroFace", []),
    ("TooManyDice", ["counter", "max"]), ("TooDeep", ["max"])]

/-- A cause is stored under this name. -/
def EvalError.name : EvalError → String
  | .divisionByZero => "DivisionByZero"
  | .overflow => "Overflow"
  | .zeroFace => "ZeroFace"
  | .tooManyDice _ _ => "TooManyDice"
  | .tooDeep _ => "TooDeep"

def EvalError.toJson (error : EvalError) : Json :=
  .tagged "kind" error.name <|
    match error with
    | .tooManyDice counter most => [("counter", .ofUInt32 counter), ("max", .ofUInt32 most)]
    | .tooDeep most => [("max", .ofUInt64 most)]
    | _ => []

def EvalError.ofJsonAt? (place : Json.Place) (json : Json) : Option EvalError :=
  match json.variant "kind" place EvalError.shapes with
  | some ("DivisionByZero", []) => some .divisionByZero
  | some ("Overflow", []) => some .overflow
  | some ("ZeroFace", []) => some .zeroFace
  | some ("TooManyDice", [counter, most]) => do
      return .tooManyDice (← counter.toUInt32?) (← most.toUInt32?)
  | some ("TooDeep", [most]) => most.toUInt64?.map .tooDeep
  | _ => none

def EvalError.ofJson? (json : Json) : Option EvalError := EvalError.ofJsonAt? .outer json

def Outcome.shapes : Json.Shapes :=
  [("Evaluated", ["node", "expr_text"]), ("Invalid", ["error"])]

def Outcome.toJson : Outcome → Json
  | .evaluated node shown =>
      .tagged "status" "Evaluated" [("node", node.toJson), ("expr_text", .str shown)]
  | .invalid error => .tagged "status" "Invalid" [("error", error.toJson)]

/-- The result and the cause of a failure are fields. -/
def Outcome.ofJsonAt? (place : Json.Place) (json : Json) : Option Outcome :=
  match json.variant "status" place Outcome.shapes with
  | some ("Evaluated", [node, shown]) => do
      return .evaluated (← Evaluated.ofJsonAt? .field node) (← shown.toString?)
  | some ("Invalid", [error]) => (EvalError.ofJsonAt? .field error).map .invalid
  | _ => none

def Outcome.ofJson? (json : Json) : Option Outcome := Outcome.ofJsonAt? .outer json

end DiceChat
