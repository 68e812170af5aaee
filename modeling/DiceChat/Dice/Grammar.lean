import DiceChat.Dice.Formula
import DiceChat.Text.Decimal
import DiceChat.Text.Space

/-!
This file reads dice expressions from text. Both levels of operators group to the right. A budget
bounds the depth: each operand after the first of a chain and each bracket has one level less than
what is around it. A text that needs more levels is reported as too deep, even if only an
abandoned alternative needed them.
-/

namespace DiceChat

/-- Reading an expression starts with this budget of levels. -/
def maxExprDepth : Nat := 64

/-- A reader finds a value at the front of a text, finds none, or runs out of levels. -/
inductive Reading (Value : Type) where
  | tooDeep
  | failed
  | read (value : Value) (rest : List Char)
  deriving DecidableEq, Repr

/-- This changes the value that was read. -/
def Reading.map {First Second : Type} (change : First → Second) : Reading First → Reading Second
  | .tooDeep => .tooDeep
  | .failed => .failed
  | .read value rest => .read (change value) rest

namespace Grammar

/-- Space may stand around operators and inside brackets. -/
def skipSpace (input : List Char) : List Char := input.dropWhile Text.isChatSpace

/-- This looks for an ASCII letter at the front. -/
def startsWithLetter : List Char → Bool
  | [] => false
  | character :: _ => character.isAlpha

/-- A roll is written as up to three digits, the letter `d` and up to four digits. -/
def rollToken (input : List Char) : Option ((List Char × List Char) × List Char) :=
  let counter := Text.takeDigits 3 input
  match counter.2 with
  | 'd' :: later =>
      let face := Text.takeDigits 4 later
      some ((counter.1, face.1), face.2)
  | _ => none

/-- A word that starts with `d` is not a roll. -/
def startsWord (face rest : List Char) : Bool :=
  face.isEmpty && startsWithLetter rest

/-- A roll without a counter has one die, and its face may be left out. -/
def roll (input : List Char) : Option (WrittenExpr × List Char) :=
  match rollToken input with
  | none => none
  | some ((counter, face), rest) =>
      if startsWord face rest then none
      else
        some (.roll (if counter.isEmpty then 1 else UInt32.ofNat (Text.digitsValue counter))
          (if face.isEmpty then none else some (UInt32.ofNat (Text.digitsValue face))), rest)

/-- A number has one to five digits. -/
def num (input : List Char) : Option (WrittenExpr × List Char) :=
  let digits := Text.takeDigits 5 input
  if digits.1.isEmpty then none
  else some (.num (Int64.ofNat (Text.digitsValue digits.1)), digits.2)

/-- Three kinds of brackets group an expression. -/
def closerOf : Char → Option Char
  | '(' => some ')'
  | '（' => some '）'
  | '[' => some ']'
  | _ => none

/-- This reads an operator of one level with the space around it. -/
def infixed (operator? : Char → Option Operator) (input : List Char) :
    Option (Operator × List Char) :=
  match skipSpace input with
  | [] => none
  | character :: rest => (operator? character).map fun operator => (operator, skipSpace rest)

/-- This reads the bracketed content up to its closing character. -/
def closeGroup (close : Char) (content : Reading WrittenExpr) : Reading WrittenExpr :=
  match content with
  | .tooDeep => .tooDeep
  | .failed => .failed
  | .read value rest =>
      match skipSpace rest with
      | [] => .failed
      | character :: later => if character = close then .read value later else .failed

/-- A bracket needs one more level, whether or not one stands there. -/
def group (content : Nat → List Char → Reading WrittenExpr) :
    Nat → List Char → Reading WrittenExpr
  | 0, _ => .tooDeep
  | _ + 1, [] => .failed
  | budget + 1, character :: rest =>
      match closerOf character with
      | none => .failed
      | some close => closeGroup close (content budget (skipSpace rest))

/-- An atom is a roll, a number or a bracketed expression. -/
def atom (content : Nat → List Char → Reading WrittenExpr) (budget : Nat)
    (input : List Char) : Reading WrittenExpr :=
  match (roll input).or (num input) with
  | some (value, rest) => .read value rest
  | none => group content budget input

/-- This reads the operands after the first, each with one level less than the one before it. A
missing operand ends the chain before the operator. -/
def links (operator? : Char → Option Operator)
    (operand : Nat → List Char → Reading WrittenExpr) :
    Nat → List Char → Reading (List (Operator × WrittenExpr))
  | budget, input =>
      match infixed operator? input with
      | none => .read [] input
      | some (operator, later) =>
          match budget with
          | 0 => .tooDeep
          | 1 => .tooDeep
          | budget + 2 =>
              match operand (budget + 1) later with
              | .tooDeep => .tooDeep
              | .failed => .read [] input
              | .read value rest =>
                  (links operator? operand (budget + 1) rest).map ((operator, value) :: ·)

/-- A chain groups to the right. -/
def foldChain (first : WrittenExpr) : List (Operator × WrittenExpr) → WrittenExpr
  | [] => first
  | (operator, next) :: others => .binary operator first (foldChain next others)

/-- A chain is an operand and any number of operators with operands after it. -/
def chain (operator? : Char → Option Operator)
    (operand : Nat → List Char → Reading WrittenExpr) (budget : Nat) (input : List Char) :
    Reading WrittenExpr :=
  match operand budget input with
  | .tooDeep => .tooDeep
  | .failed => .failed
  | .read first rest => (links operator? operand budget rest).map (foldChain first)

/-- This reads sums of products of atoms, given a reader for what stands in brackets. -/
def sum (content : Nat → List Char → Reading WrittenExpr) :
    Nat → List Char → Reading WrittenExpr :=
  chain Operator.additive? (chain Operator.multiplicative? (atom content))

/-- This reads an expression whose brackets nest at most so deep. -/
def exprWithin : Nat → Nat → List Char → Reading WrittenExpr
  | 0 => sum fun _ _ => .tooDeep
  | brackets + 1 => sum (exprWithin brackets)

/-- This reads an expression with a budget of levels, which bounds its brackets too. -/
def expr (budget : Nat) (input : List Char) : Reading WrittenExpr :=
  exprWithin budget budget input

end Grammar

end DiceChat
