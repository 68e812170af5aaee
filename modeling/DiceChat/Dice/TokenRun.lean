import DiceChat.Dice.Grammar
import DiceChat.Text.Lead

/-!
This file finds the run of expression tokens at the front of a text: rolls, numbers, operators and
brackets with space before them. A text that holds a too deep expression keeps its run together.
-/

namespace DiceChat.Grammar

/-- These characters are expression tokens of their own. -/
def isSymbol (character : Char) : Bool :=
  "-+*/×÷()（）[]".toList.contains character

/-- This takes space and one expression token off the front of a text. -/
def token (input : List Char) : Option (List Char) :=
  let input := skipSpace input
  match rollToken input with
  | some ((_, face), rest) => if startsWord face rest then none else some rest
  | none =>
      match input with
      | [] => none
      | character :: rest =>
          if character.isDigit then some (rest.dropWhile Char.isDigit)
          else if isSymbol character then some rest
          else none

theorem length_takeDigits (limit : Nat) (input : List Char) :
    (Text.takeDigits limit input).2.length ≤ input.length := by
  have whole := congrArg List.length (Text.takeDigits_append limit input)
  rw [List.length_append] at whole
  omega

theorem length_skipSpace (input : List Char) : (skipSpace input).length ≤ input.length :=
  (List.dropWhile_sublist Text.isChatSpace).length_le

/-- A roll takes at least its letter. -/
theorem length_rollToken {input rest : List Char} {digits : List Char × List Char}
    (found : rollToken input = some (digits, rest)) : rest.length < input.length := by
  have counter := length_takeDigits 3 input
  unfold rollToken at found
  dsimp only at found
  split at found
  · rename_i later same
    have face := length_takeDigits 4 later
    rw [same, List.length_cons] at counter
    simp only [Option.some.injEq, Prod.mk.injEq] at found
    rw [← found.2]
    omega
  · exact absurd found (by simp)

/-- A token takes at least one character. -/
theorem length_token {input rest : List Char} (found : token input = some rest) :
    rest.length < input.length := by
  have skipped := length_skipSpace input
  unfold token at found
  dsimp only at found
  split at found
  · rename_i face later same
    have taken := length_rollToken same
    split at found
    · exact absurd found (by simp)
    · simp only [Option.some.injEq] at found
      rw [← found]
      omega
  · split at found
    · exact absurd found (by simp)
    · rename_i character later same
      rw [same, List.length_cons] at skipped
      have digits := (List.dropWhile_sublist Char.isDigit (l := later)).length_le
      split at found
      · simp only [Option.some.injEq] at found
        rw [← found]
        omega
      · split at found
        · simp only [Option.some.injEq] at found
          rw [← found]
          omega
        · exact absurd found (by simp)

/-- This is what follows the run of tokens. -/
def afterTokens (input : List Char) : List Char :=
  match _ : token input with
  | none => input
  | some rest => afterTokens rest
termination_by input.length
decreasing_by exact length_token (by assumption)

/-- The run ends after its last token. -/
def tokenRun (input : List Char) : List Char :=
  Text.before input (afterTokens input)

end DiceChat.Grammar
