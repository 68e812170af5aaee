import DiceChat.Dice.Evaluation

/-!
This file holds the outcome of an expression as a message shows it.
-/

namespace DiceChat

/-- An expression has a result that is also shown as text, or the cause of its failure. -/
inductive Outcome where
  | evaluated (node : Evaluated) (shown : String)
  | invalid (error : EvalError)
  deriving DecidableEq, Repr

def Outcome.ofResult : Except EvalError Evaluated → Outcome
  | .ok node => .evaluated node node.display
  | .error error => .invalid error

end DiceChat
