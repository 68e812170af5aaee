import DiceChat.Dice.Formula
import DiceChat.Text.Units

/-!
This file holds entities: marked ranges of a message text. Ranges count UTF-16 code units, and
stored ranges may be arbitrary, so a range need not fit the text it belongs to.
-/

namespace DiceChat

/-- An entity has one of four kinds. -/
inductive EntityKind where
  | text
  | strong
  | link
  | expr
  deriving DecidableEq, Repr

/-- A kind is shown and stored under this name. -/
def EntityKind.name : EntityKind → String
  | .text => "Text"
  | .strong => "Strong"
  | .link => "Link"
  | .expr => "Expr"

/-- This lists the kinds in the order of a summary. -/
def EntityKind.all : List EntityKind := [.text, .strong, .link, .expr]

/-- A link knows its target and an expression its tree. -/
inductive EntityBody where
  | text
  | strong
  | link (href : String)
  | expr (node : Expr)
  deriving DecidableEq, Repr

def EntityBody.kind : EntityBody → EntityKind
  | .text => .text
  | .strong => .strong
  | .link _ => .link
  | .expr _ => .expr

/-- An entity marks the range of `offset` code units from `start`. -/
structure Entity where
  start : UInt64
  offset : UInt64
  body : EntityBody
  deriving DecidableEq, Repr

namespace Entity

def kind (entity : Entity) : EntityKind := entity.body.kind

def isText (entity : Entity) : Bool := entity.kind == .text

/-- The largest position is kept for every range that ends past it. -/
def stop (entity : Entity) : Nat :=
  min (entity.start.toNat + entity.offset.toNat) (UInt64.size - 1)

/-- This is the covered text, if the range fits between characters. -/
def slice (entity : Entity) (text : List Char) : Option (List Char) := do
  let (_, rest) ← Text.cutUnits text entity.start.toNat
  let (covered, _) ← Text.cutUnits rest entity.offset.toNat
  return covered

end Entity

end DiceChat
