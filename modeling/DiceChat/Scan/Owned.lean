import DiceChat.Scan.Parser
import DiceChat.Text.Units

/-!
This file runs parsers on states that each own their text. Nothing is shared between two states
but the mark of a scan that went too deep.
-/

namespace DiceChat.Scan

/-- A state owns the text written so far. -/
structure State where
  text : List Char
  rest : List Char
  depth : Nat
  deriving DecidableEq, Repr

/-- An owned step succeeds with a value and a state or fails, and keeps or sets the mark. -/
abbrev OwnedStep (Value : Type) := State → Bool → Option (Value × State) × Bool

namespace State

/-- This applies the edits of a callback in order. -/
def edit : List Edit → State → State
  | [], state => state
  | .append added :: others, state => { state with text := state.text ++ added }.edit others
  | .drop count :: others, state => { state with rest := state.rest.drop count }.edit others

def view (state : State) : View :=
  ⟨state.text, Text.units state.text, state.rest, state.depth⟩

end State

/-- This repeats a step until it fails or takes no source. -/
def repeatOwned {Value : Type} (step : OwnedStep Value) (state : State) (tooDeep : Bool) :
    (List Value × State) × Bool :=
  match step state tooDeep with
  | (none, marked) => (([], state), marked)
  | (some (value, next), marked) =>
      if next.rest.length < state.rest.length then
        let later := repeatOwned step next marked
        ((value :: later.1.1, later.1.2), later.2)
      else (([], state), marked)
termination_by state.rest.length

/-- This runs a parser on a state of its own. -/
def Parser.runOwned {Value : Type} (env : Env) : Parser Value → OwnedStep Value
  | .token recognise, state, tooDeep =>
      ((recognise state.rest).map fun (value, count) =>
        (value, { state with rest := state.rest.drop count }), tooDeep)
  | .map change parser, state, tooDeep =>
      let result := parser.runOwned env state tooDeep
      (result.1.map fun (value, next) => (change value, next), result.2)
  | .and first second, state, tooDeep =>
      match first.runOwned env state tooDeep with
      | (none, marked) => (none, marked)
      | (some (left, middle), marked) =>
          let result := second.runOwned env middle marked
          (result.1.map fun (right, next) => ((left, right), next), result.2)
  | .maybe parser, state, tooDeep =>
      match parser.runOwned env state tooDeep with
      | (none, marked) => (some (none, state), marked)
      | (some (value, next), marked) => (some (some value, next), marked)
  | .many parser, state, tooDeep =>
      let result := repeatOwned (parser.runOwned env) state tooDeep
      (some result.1, result.2)
  | .never, _, tooDeep => (none, tooDeep)
  | .either first second, state, tooDeep =>
      match first.runOwned env state tooDeep with
      | (none, marked) => second.runOwned env state marked
      | (some result, marked) => (some result, marked)
  | .nested parser, state, tooDeep =>
      if maxDepth ≤ state.depth then (none, true)
      else
        let result := parser.runOwned env { state with depth := state.depth + 1 } tooDeep
        (result.1.map fun (value, next) => (value, { next with depth := state.depth }), result.2)
  | .andThen parser callback, state, tooDeep =>
      match parser.runOwned env state tooDeep with
      | (none, marked) => (none, marked)
      | (some (value, next), marked) =>
          let answer := callback env next.view value
          (answer.2.map fun changed => (changed, next.edit answer.1), marked)

end DiceChat.Scan
