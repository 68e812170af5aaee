import DiceChat.Dice.Operator

/-!
This file holds dice expressions as trees. The type of a die's face is a parameter: a stored
expression gives each die a face, and a written one may leave it out.
-/

namespace DiceChat

/-- A formula is a number, a roll of equal dice, or two formulas joined by an operator. -/
inductive Formula (Face : Type) where
  | num (value : Int64)
  | roll (counter : UInt32) (face : Face)
  | binary (operator : Operator) (left right : Formula Face)
  deriving DecidableEq, Repr

/-- Every die of an expression has a number of faces. -/
abbrev Expr := Formula UInt32

/-- A written roll may leave its number of faces to the reader. -/
abbrev WrittenExpr := Formula (Option UInt32)

namespace Formula

/-- The depth counts the levels below the root. -/
def depth {Face : Type} : Formula Face → Nat
  | .num _ => 0
  | .roll _ _ => 0
  | .binary _ left right => 1 + max left.depth right.depth

/-- This replaces every face and keeps the tree. -/
def mapFace {First Second : Type} (change : First → Second) : Formula First → Formula Second
  | .num value => .num value
  | .roll counter face => .roll counter (change face)
  | .binary operator left right => .binary operator (left.mapFace change) (right.mapFace change)

/-- Bare numbers are not dice expressions of their own. -/
def isNum {Face : Type} : Formula Face → Bool
  | .num _ => true
  | _ => false

@[simp] theorem depth_mapFace {First Second : Type} (change : First → Second)
    (formula : Formula First) : (formula.mapFace change).depth = formula.depth := by
  induction formula with
  | num => rfl
  | roll => rfl
  | binary operator left right leftSame rightSame => simp [mapFace, depth, leftSame, rightSame]

@[simp] theorem isNum_mapFace {First Second : Type} (change : First → Second)
    (formula : Formula First) : (formula.mapFace change).isNum = formula.isNum := by
  cases formula <;> rfl

end Formula

/-- The given face fills in for every face that was left out. -/
def WrittenExpr.fill (defaultFace : UInt32) (written : WrittenExpr) : Expr :=
  written.mapFace fun face => face.getD defaultFace

end DiceChat
