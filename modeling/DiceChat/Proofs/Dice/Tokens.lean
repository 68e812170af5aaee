import DiceChat.Proofs.Dice.Written

/-!
This file says what the run of expression tokens is: a front of the text that ends where no token
follows.
-/

namespace DiceChat.Grammar

theorem skipSpace_suffix (input : List Char) : skipSpace input <:+ input :=
  List.dropWhile_suffix _

/-- The symbols are these twelve. -/
theorem isSymbol_cases {character : Char} (symbol : isSymbol character = true) :
    character = '-' ∨ character = '+' ∨ character = '*' ∨ character = '/' ∨ character = '×' ∨
      character = '÷' ∨ character = '(' ∨ character = ')' ∨ character = '（' ∨ character = '）' ∨
      character = '[' ∨ character = ']' := by
  rw [isSymbol, show "-+*/×÷()（）[]".toList =
    ['-', '+', '*', '/', '×', '÷', '(', ')', '（', '）', '[', ']'] from by decide] at symbol
  simpa only [List.contains_cons, List.contains_nil, Bool.or_false, Bool.or_eq_true, beq_iff_eq]
    using symbol

/-- What follows a token is a later part of the text. -/
theorem token_suffix {input rest : List Char} (found : token input = some rest) :
    rest <:+ input := by
  suffices later : rest <:+ skipSpace input from later.trans (skipSpace_suffix input)
  unfold token at found
  dsimp only at found
  split at found
  · rename_i counter face later same
    obtain ⟨whole, -⟩ := rollToken_split same
    split at found
    · exact absurd found (by simp)
    · obtain rfl := Option.some.inj found
      exact ⟨_, whole.symm⟩
  · split at found
    · exact absurd found (by simp)
    · rename_i character later same
      rw [same]
      split at found
      · obtain rfl := Option.some.inj found
        exact (List.dropWhile_suffix _).trans (List.suffix_cons character later)
      · split at found
        · obtain rfl := Option.some.inj found
          exact List.suffix_cons character later
        · exact absurd found (by simp)

/-- One token leads to the tokens after it. -/
theorem afterTokens_of_token {input rest : List Char} (found : token input = some rest) :
    afterTokens input = afterTokens rest := by
  rw [afterTokens]
  split
  · rename_i missing
    exact absurd (missing.symm.trans found) (by simp)
  · rename_i other present
    obtain rfl := Option.some.inj (present.symm.trans found)
    rfl

/-- The run is empty where no token stands. -/
theorem afterTokens_of_none {input : List Char} (missing : token input = none) :
    afterTokens input = input := by
  rw [afterTokens]
  split
  · rfl
  · rename_i present
    exact absurd (present.symm.trans missing) (by simp)

/-- A fact that holds where no token follows, and before a token if it holds after it, holds of
every text. -/
theorem token_induction {motive : List Char → Prop} (input : List Char)
    (last : ∀ input, token input = none → motive input)
    (step : ∀ input rest, token input = some rest → motive rest → motive input) :
    motive input := by
  induction length : input.length using Nat.strongRecOn generalizing input with
  | ind length ih =>
      cases found : token input with
      | none => exact last input found
      | some rest =>
          have shorter := length_token found
          exact step input rest found (ih rest.length (by omega) rest rfl)

/-- What follows the run is a later part of the text. -/
theorem afterTokens_suffix (input : List Char) : afterTokens input <:+ input := by
  induction input using token_induction with
  | last input missing => exact ⟨[], afterTokens_of_none missing⟩
  | step input rest found ih =>
      rw [afterTokens_of_token found]
      exact ih.trans (token_suffix found)

/-- The run and what follows it make up the text. -/
theorem tokenRun_append (input : List Char) : tokenRun input ++ afterTokens input = input :=
  Text.before_append_of_suffix (afterTokens_suffix input)

/-- No token follows the run. -/
theorem token_afterTokens (input : List Char) : token (afterTokens input) = none := by
  induction input using token_induction with
  | last input missing => rw [afterTokens_of_none missing, missing]
  | step input rest found ih => rw [afterTokens_of_token found, ih]

end DiceChat.Grammar
