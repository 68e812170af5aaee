import DiceChat.Entity.Merge
import DiceChat.Message.Basic
import DiceChat.Message.Rule

/-!
This file reads a source into a message. At each place the first matching rule takes a piece, and
neighbouring pieces of text become one entity.
-/

namespace DiceChat

/-- This is the first piece that some rule finds. -/
def firstPiece (rules : List Rule) (input : List Char) : Option (Piece × List Char) :=
  rules.findSome? fun rule => rule.read input

/-- This reads pieces as long as a rule matches and takes some source, and returns what is left. -/
def readPieces (rules : List Rule) (input : List Char) : List Piece × List Char :=
  match firstPiece rules input with
  | none => ([], input)
  | some (piece, rest) =>
      if rest.length < input.length then
        let later := readPieces rules rest
        (piece :: later.1, later.2)
      else ([], input)
termination_by input.length

/-- Whatever no rule takes is kept as plain text. -/
def pieces (rules : List Rule) (input : List Char) : List Piece :=
  match readPieces rules input with
  | (found, []) => found
  | (found, rest) => found ++ [.plain rest]

/-- This reads a source with a list of rules. -/
def parseWith (rules : List Rule) (defaultFace : UInt32) (source : List Char) : Message :=
  ⟨String.ofList (textOf (pieces rules source)),
    mergeText (layout defaultFace 0 (pieces rules source))⟩

/-- This reads a source with the rules that it can need. -/
def parse (env : Env) (source : String) : Message :=
  parseWith (Rule.active env source.toList) env.defaultFace source.toList

/-- A report tells which rules were tried and how the entities came out. -/
structure Report where
  message : Message
  activeRules : List Rule
  rawEntities : Nat
  kindCounts : List (EntityKind × Nat)

/-- Kinds that do not occur are left out of the counts. -/
def countKinds (entities : List Entity) : List (EntityKind × Nat) :=
  (EntityKind.all.map fun kind => (kind, entities.countP fun entity => entity.kind == kind)).filter
    fun count => count.2 ≠ 0

/-- The raw count is taken before text is merged. -/
def report (env : Env) (source : String) : Report :=
  let rules := Rule.active env source.toList
  let message := parse env source
  ⟨message, rules, (pieces rules source.toList).length, countKinds message.entities⟩

end DiceChat
