import DiceChat.Scan.Cursor
import DiceChat.Scan.Parser

/-!
This file runs parsers on cursors over a shared output. A run has no answer only if a cursor does
not fit the output; otherwise it succeeds or fails, and may leave text of abandoned alternatives in
the output in both cases.
-/

namespace DiceChat.Scan

/-- A step succeeds with a value and a cursor or fails, and changes the shared output. -/
abbrev Step (Value : Type) := Cursor → Output → Option (Option (Value × Cursor) × Output)

/-- This applies the edits of a callback in order. -/
def Cursor.edit : List Edit → Cursor → Output → Option (Cursor × Output)
  | [], cursor, output => some (cursor, output)
  | .append added :: others, cursor, output =>
      (cursor.append added output).bind fun (next, written) => next.edit others written
  | .drop count :: others, cursor, output =>
      { cursor with rest := cursor.rest.drop count }.edit others output

/-- A cursor is viewed with its own part of the output. -/
def Cursor.view (cursor : Cursor) (output : Output) : Option View :=
  (cursor.text? output).map fun text => ⟨text, cursor.offset, cursor.rest, cursor.depth⟩

/-- This repeats a step until it fails or takes no source. -/
def repeatStep {Value : Type} (step : Step Value) (cursor : Cursor) (output : Output) :
    Option ((List Value × Cursor) × Output) :=
  match step cursor output with
  | none => none
  | some (none, written) => some (([], cursor), written)
  | some (some (value, next), written) =>
      if next.rest.length < cursor.rest.length then
        (repeatStep step next written).map fun ((values, last), final) =>
          ((value :: values, last), final)
      else some (([], cursor), written)
termination_by cursor.rest.length

/-- This runs a parser. -/
def Parser.run {Value : Type} (env : Env) : Parser Value → Step Value
  | .token recognise, cursor, output =>
      match recognise cursor.rest with
      | none => some (none, output)
      | some (value, count) =>
          some (some (value, { cursor with rest := cursor.rest.drop count }), output)
  | .map change parser, cursor, output =>
      (parser.run env cursor output).map fun (result, written) =>
        (result.map fun (value, next) => (change value, next), written)
  | .and first second, cursor, output =>
      match first.run env cursor output with
      | none => none
      | some (none, written) => some (none, written)
      | some (some (left, middle), written) =>
          (second.run env middle written).map fun (result, final) =>
            (result.map fun (right, next) => ((left, right), next), final)
  | .maybe parser, cursor, output =>
      (parser.run env cursor output).map fun (result, written) =>
        match result with
        | none => (some (none, cursor), written)
        | some (value, next) => (some (some value, next), written)
  | .many parser, cursor, output =>
      (repeatStep (parser.run env) cursor output).map fun (result, written) =>
        (some result, written)
  | .never, _, output => some (none, output)
  | .either first second, cursor, output =>
      match first.run env cursor output with
      | none => none
      | some (none, written) => second.run env cursor written
      | some (some result, written) => some (some result, written)
  | .nested parser, cursor, output =>
      if maxDepth ≤ cursor.depth then some (none, output.markTooDeep)
      else
        (parser.run env (cursor.atDepth (cursor.depth + 1)) output).map fun (result, written) =>
          (result.map fun (value, next) => (value, next.atDepth cursor.depth), written)
  | .andThen parser callback, cursor, output =>
      match parser.run env cursor output with
      | none => none
      | some (none, written) => some (none, written)
      | some (some (value, next), written) =>
          (next.view written).bind fun view =>
            let answer := callback env view value
            (next.edit answer.1 written).map fun (last, final) =>
              (answer.2.map fun changed => (changed, last), final)

end DiceChat.Scan
