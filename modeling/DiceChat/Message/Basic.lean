import DiceChat.Entity.Coverage

/-!
This file holds messages: a plain text with the entities over it.
-/

namespace DiceChat

/-- A message is its text and the entities over it. -/
structure Message where
  text : String
  entities : List Entity
  deriving DecidableEq, Repr

/-- The empty message has no text and no entities. -/
def Message.empty : Message := ⟨"", []⟩

/-- A message stored without entities is plain text. -/
def Message.ofStored (text : String) (entities : List Entity) : Message :=
  if entities = [] ∧ text ≠ "" then
    ⟨text, [⟨0, UInt64.ofNat (Text.units text.toList), .text⟩]⟩
  else ⟨text, entities⟩

/-- This checks the entities of a message against its text. -/
def Message.coverage (message : Message) : Except CoverageError Unit :=
  DiceChat.coverage message.text.toList message.entities

end DiceChat
