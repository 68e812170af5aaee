/-!
This file holds the four arithmetic operators and their symbols.
-/

namespace DiceChat

/-- A dice expression joins two operands with one of four operators. -/
inductive Operator where
  | add
  | sub
  | mul
  | div
  deriving DecidableEq, Repr

/-- This is the symbol an operator is shown and stored with. -/
def Operator.symbol : Operator → Char
  | .add => '+'
  | .sub => '-'
  | .mul => '×'
  | .div => '÷'

/-- Products and quotients bind tighter than sums and differences. -/
def Operator.precedence : Operator → Nat
  | .add | .sub => 1
  | .mul | .div => 2

/-- An additive operator is written with its own symbol. -/
def Operator.additive? : Char → Option Operator
  | '+' => some .add
  | '-' => some .sub
  | _ => none

/-- A multiplicative operator is written with its symbol or as a star or a slash. -/
def Operator.multiplicative? : Char → Option Operator
  | '×' | '*' => some .mul
  | '÷' | '/' => some .div
  | _ => none

/-- A text of one symbol is read as an operator of either kind. -/
def Operator.ofText? : List Char → Option Operator
  | [symbol] => (additive? symbol).or (multiplicative? symbol)
  | _ => none

theorem Operator.symbol_injective {first second : Operator}
    (same : first.symbol = second.symbol) : first = second := by
  cases first <;> cases second <;> first | rfl | exact absurd same (by decide)

end DiceChat
