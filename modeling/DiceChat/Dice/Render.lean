import DiceChat.Dice.Formula
import DiceChat.Text.Decimal

/-!
This file writes an expression as text. Every operation is parenthesised unless it binds tighter
than the operation around it, so the grouping is always explicit.
-/

namespace DiceChat

/-- An operation stands without parentheses only inside one that binds weaker. -/
def Operator.standsBareIn (inner : Operator) : Option Operator → Bool
  | none => false
  | some outer => decide (outer.precedence < inner.precedence)

/-- Parentheses surround a text unless it stands bare. -/
def parenthesise (bare : Bool) (text : List Char) : List Char :=
  if bare then text else '(' :: text ++ [')']

/-- This writes an expression as an operand of the surrounding operator. -/
def Expr.renderIn (outer : Option Operator) : Expr → List Char
  | .num value => Text.integer value.toInt
  | .roll counter face => Text.natural counter.toNat ++ 'd' :: Text.natural face.toNat
  | .binary operator left right =>
      parenthesise (operator.standsBareIn outer)
        (renderIn (some operator) left ++ operator.symbol :: renderIn (some operator) right)

/-- This writes a whole expression. -/
def Expr.render (expr : Expr) : String := String.ofList (Expr.renderIn none expr)

end DiceChat
