import DiceChat.Entity.Basic
import DiceChat.Text.Decimal

/-!
This file checks that the entities of a message cover its text: every code unit lies in exactly
one range, and the ranges follow each other in order.
-/

namespace DiceChat

/-- The first entity that breaks the coverage is reported with the positions involved. -/
inductive CoverageError where
  | gap (index expected found : Nat)
  | overlap (index expected found : Nat)
  | outOfBounds (index stop length : Nat)
  | notCharBoundary (index position : Nat)
  | uncovered (covered length : Nat)
  deriving DecidableEq, Repr

/-- This is the wording of a violation. -/
def CoverageError.message : CoverageError → String
  | .gap index expected found =>
      "entity " ++ number index ++ " starts at " ++ number found ++ ", leaving " ++
        number expected ++ ".." ++ number found ++ " uncovered"
  | .overlap index expected found =>
      "entity " ++ number index ++ " starts at " ++ number found ++
        ", overlapping the previous entity ending at " ++ number expected
  | .outOfBounds index stop length =>
      "entity " ++ number index ++ " ends at " ++ number stop ++
        ", past the end of the text (" ++ number length ++ ")"
  | .notCharBoundary index position =>
      "entity " ++ number index ++ " ends at " ++ number position ++
        ", between the halves of a surrogate pair"
  | .uncovered covered length =>
      "entities cover " ++ number covered ++ " of " ++ number length ++ " code units"
where
  number (value : Nat) : String := String.ofList (Text.natural value)

/-- This checks the entities from an index on against the text that is not covered yet. -/
def coverageFrom (length : Nat) (index expected : Nat) (rest : List Char) :
    List Entity → Except CoverageError Unit
  | [] => if expected = length then .ok () else .error (.uncovered expected length)
  | entity :: others =>
      if expected < entity.start.toNat then
        .error (.gap index expected entity.start.toNat)
      else if entity.start.toNat < expected then
        .error (.overlap index expected entity.start.toNat)
      else if length < entity.stop then
        .error (.outOfBounds index entity.stop length)
      else
        match Text.cutUnits rest entity.offset.toNat with
        | none => .error (.notCharBoundary index entity.stop)
        | some (_, after) => coverageFrom length (index + 1) entity.stop after others

/-- This checks a whole list of entities. -/
def coverage (text : List Char) (entities : List Entity) : Except CoverageError Unit :=
  coverageFrom (Text.units text) 0 0 text entities

end DiceChat
