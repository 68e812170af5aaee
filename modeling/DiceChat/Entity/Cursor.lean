import DiceChat.Entity.Basic

/-!
This file looks up the covered text of many entities in one walk over a text. The walk goes on
from the end of the last range and starts again only for a range that lies before it.
-/

namespace DiceChat

/-- The walk has passed `units` code units of the text and has `rest` before it. -/
structure UnitCursor where
  text : List Char
  units : Nat
  rest : List Char

namespace UnitCursor

def ofText (text : List Char) : UnitCursor := ⟨text, 0, text⟩

/-- The walk starts again for a position behind it. -/
def rewindTo (position : Nat) (cursor : UnitCursor) : UnitCursor :=
  if position < cursor.units then ofText cursor.text else cursor

/-- A successful look-up moves to the end of its range. -/
def slice (entity : Entity) (cursor : UnitCursor) : Option (List Char) × UnitCursor :=
  let found := cursor.rewindTo entity.start.toNat
  match Text.cutUnits found.rest (entity.start.toNat - found.units) with
  | none => (none, found)
  | some (_, rest) =>
      match Text.cutUnits rest entity.offset.toNat with
      | none => (none, found)
      | some (covered, after) => (some covered, { found with units := entity.stop, rest := after })

end UnitCursor

end DiceChat
