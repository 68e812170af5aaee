import DiceChat.Dice.Outcome
import DiceChat.Entity.Cursor
import DiceChat.Message.Basic
import DiceChat.Text.Space

/-!
This file exports a message: every entity with the text it covers, and every expression with its
outcome. All expressions of a message draw from one generator in their order.
-/

namespace DiceChat

/-- An exported link knows its target and an exported expression its outcome. -/
inductive ExportBody where
  | text
  | strong
  | link (href : String)
  | expr (outcome : Outcome)
  deriving DecidableEq, Repr

/-- An exported entity holds the text it covers. -/
structure ExportEntity where
  start : UInt64
  offset : UInt64
  text : String
  body : ExportBody
  deriving DecidableEq, Repr

def ExportEntity.outcome? (entity : ExportEntity) : Option Outcome :=
  match entity.body with
  | .expr outcome => some outcome
  | _ => none

/-- Only an expression draws from the generator. -/
def EntityBody.toExport (generator : Generator) : EntityBody → ExportBody × Generator
  | .text => (.text, generator)
  | .strong => (.strong, generator)
  | .link href => (.link href, generator)
  | .expr node =>
      let result := node.evaluate generator
      (.expr (.ofResult result.1), result.2)

/-- Expressions are exported without the White_Space at their end. -/
def EntityBody.exportText (covered : List Char) : EntityBody → List Char
  | .expr _ => Text.trimRight covered
  | _ => covered

/-- This exports entities from a position of the walk and a state of the generator. A range that
does not fit has an empty text. -/
def exportFrom : UnitCursor → Generator → List Entity → List ExportEntity
  | _, _, [] => []
  | cursor, generator, entity :: others =>
      let found := cursor.slice entity
      let body := entity.body.toExport generator
      ⟨entity.start, entity.offset,
        String.ofList (entity.body.exportText (found.1.getD [])), body.1⟩ ::
        exportFrom found.2 body.2 others

/-- This exports a whole message with the dice of its seed. -/
def Message.toExport (message : Message) (seed : Seed) : List ExportEntity :=
  exportFrom (.ofText message.text.toList) (.ofSeed seed) message.entities

end DiceChat
