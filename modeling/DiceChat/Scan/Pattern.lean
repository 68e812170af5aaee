/-!
This file holds simple patterns: runs of characters one after the other, each as long as it can
be. Some runs are groups of the match.
-/

namespace DiceChat.Scan

/-- A run takes characters of a class, between a least and a most number of them. -/
structure CharRun where
  accepts : Char → Bool
  least : Nat := 1
  most : Option Nat := some 1
  isGroup : Bool := false

/-- A pattern may ask for the end of the source after its runs. -/
structure Pattern where
  runs : List CharRun
  atEnd : Bool := false

/-- A match is the whole text and its groups in order. -/
structure Match where
  whole : List Char
  groups : List (List Char)
  deriving DecidableEq, Repr

/-- Group zero is the whole match, and a missing group is empty. -/
def Match.group (found : Match) : Nat → List Char
  | 0 => found.whole
  | index + 1 => found.groups[index]?.getD []

/-- This is the longest text the run takes. -/
def CharRun.take (run : CharRun) (input : List Char) : List Char :=
  match run.most with
  | some most => (input.take most).takeWhile run.accepts
  | none => input.takeWhile run.accepts

/-- This takes one run after the other and fails at the first one that is too short. -/
def Pattern.takeRuns : List CharRun → List Char → Option (List Char × List (List Char))
  | [], _ => some ([], [])
  | run :: others, input =>
      let taken := run.take input
      if taken.length < run.least then none
      else
        (takeRuns others (input.drop taken.length)).map fun (later, groups) =>
          (taken ++ later, if run.isGroup then taken :: groups else groups)

/-- A match stands at the front of the source. -/
def Pattern.find (pattern : Pattern) (input : List Char) : Option (Match × Nat) :=
  (takeRuns pattern.runs input).bind fun (whole, groups) =>
    if pattern.atEnd && whole.length < input.length then none
    else some (⟨whole, groups⟩, whole.length)

end DiceChat.Scan
