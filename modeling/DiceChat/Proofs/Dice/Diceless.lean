import DiceChat.Proofs.Dice.Tokens

/-!
This file is about texts without any digit and without the letter `d`. No expression is read there,
but brackets alone can still be too deep, and then the run of tokens has symbols and space only.
-/

namespace DiceChat.Grammar

/-- A text without dice has no digit and no `d`. -/
def Diceless (text : List Char) : Prop :=
  ∀ character ∈ text, character.isDigit = false ∧ character ≠ 'd'

theorem Diceless.of_suffix {text later : List Char} (diceless : Diceless text)
    (suffix : later <:+ text) : Diceless later :=
  fun character member => diceless character (suffix.subset member)

/-- Every written expression has a digit or a `d`. -/
theorem Written.exists_dice {level : Level} {budget : Nat} {value : WrittenExpr}
    {text : List Char} (written : Written level budget value text) :
    ∃ character ∈ text, character.isDigit = true ∨ character = 'd' := by
  induction written with
  | roll => exact ⟨'d', by simp, .inr rfl⟩
  | @num _ digits digit filled _ =>
      obtain ⟨first, others, rfl⟩ := List.exists_cons_of_ne_nil filled
      exact ⟨first, List.mem_cons_self, .inl (digit first List.mem_cons_self)⟩
  | group _ _ _ _ ih =>
      obtain ⟨character, member, dice⟩ := ih
      exact ⟨character, by simp [member], dice⟩
  | single _ _ ih => exact ih
  | linked _ _ _ _ _ _ ih _ =>
      obtain ⟨character, member, dice⟩ := ih
      exact ⟨character, by simp [member], dice⟩

/-- A sound reader reads nothing from a text without dice. -/
theorem Sound.ne_read {level : Level} {reader : Nat → List Char → Reading WrittenExpr}
    (sound : Sound level reader) {input : List Char} (diceless : Diceless input) (budget : Nat)
    (value : WrittenExpr) (rest : List Char) : reader budget input ≠ .read value rest := by
  intro found
  obtain ⟨text, rfl, written⟩ := sound budget input value rest found
  obtain ⟨character, member, dice⟩ := written.exists_dice
  obtain ⟨notDigit, notLetter⟩ := diceless character (List.mem_append_left rest member)
  rcases dice with digit | letter
  · exact absurd digit (by simp [notDigit])
  · exact notLetter letter

/-- A chain that cannot read its first operand is too deep only if that operand is. -/
theorem operand_tooDeep {operator? : Char → Option Operator}
    {operand : Nat → List Char → Reading WrittenExpr} {budget : Nat} {input : List Char}
    (unread : ∀ value rest, operand budget input ≠ .read value rest)
    (deep : chain operator? operand budget input = .tooDeep) :
    operand budget input = .tooDeep := by
  unfold chain at deep
  split at deep
  · assumption
  · exact absurd deep (by simp)
  · rename_i value rest found
    exact absurd found (unread value rest)

/-- A text without dice is too deep only if it starts with a bracket. -/
theorem bracket_of_tooDeep {budget : Nat} {input : List Char} (diceless : Diceless input)
    (deep : expr (budget + 1) input = .tooDeep) :
    ∃ opening closing rest, input = opening :: rest ∧ closerOf opening = some closing := by
  have content := exprWithin_sound budget
  have unreadAtom := (atom_sound content).ne_read diceless (budget + 1)
  have unreadProduct := (chain_sound .product (atom_sound content)).ne_read diceless (budget + 1)
  have deepProduct := operand_tooDeep unreadProduct deep
  have deepAtom := operand_tooDeep unreadAtom deepProduct
  unfold atom at deepAtom
  split at deepAtom
  · exact absurd deepAtom (by simp)
  · cases input with
    | nil => exact absurd deepAtom (by simp [group])
    | cons opening rest =>
        rw [group] at deepAtom
        split at deepAtom
        · exact absurd deepAtom (by simp)
        · rename_i closing closes
          exact ⟨opening, closing, rest, rfl, closes⟩

/-- The opening brackets are these three. -/
theorem opening_cases {opening closing : Char} (closes : closerOf opening = some closing) :
    opening = '(' ∨ opening = '（' ∨ opening = '[' := by
  rcases closerOf_eq_some_iff.mp closes with ⟨round, -⟩ | ⟨wide, -⟩ | ⟨square, -⟩
  · exact .inl round
  · exact .inr (.inl wide)
  · exact .inr (.inr square)

/-- A token of a text without dice is a symbol after space. -/
theorem token_split_of_diceless {input rest : List Char} (diceless : Diceless input)
    (found : token input = some rest) :
    ∃ spaces symbol, input = spaces ++ symbol :: rest ∧ Blank spaces ∧ isSymbol symbol = true := by
  obtain ⟨spaces, whole, blank⟩ := skipSpace_split input
  have later := diceless.of_suffix (skipSpace_suffix input)
  unfold token at found
  dsimp only at found
  split at found
  · rename_i counter face after isRoll
    obtain ⟨split, -⟩ := rollToken_split isRoll
    exact absurd rfl (later 'd' (by simp [split])).2
  · split at found
    · exact absurd found (by simp)
    · rename_i symbol others same
      have notDigit := (later symbol (by simp [same])).1
      rw [if_neg (by simp [notDigit])] at found
      split at found
      · rename_i isSymbol
        obtain rfl := Option.some.inj found
        exact ⟨spaces, symbol, by rw [← same, ← whole], blank, isSymbol⟩
      · exact absurd found (by simp)

/-- The run starts with its first token. -/
theorem tokenRun_of_token {input front rest : List Char} (found : token input = some rest)
    (whole : input = front ++ rest) : tokenRun input = front ++ tokenRun rest := by
  have split : input = (front ++ tokenRun rest) ++ afterTokens rest := by
    rw [List.append_assoc, tokenRun_append, whole]
  rw [tokenRun, afterTokens_of_token found, split, Text.before_append]

theorem tokenRun_of_none {input : List Char} (missing : token input = none) :
    tokenRun input = [] := by
  simp [tokenRun, afterTokens_of_none missing, Text.before]

/-- The run of a text without dice has symbols and space only. -/
theorem symbol_of_mem_tokenRun {input : List Char} (diceless : Diceless input) :
    ∀ character ∈ tokenRun input,
      isSymbol character = true ∨ Text.isChatSpace character = true := by
  induction input using token_induction with
  | last input missing => simp [tokenRun_of_none missing]
  | step input rest found ih =>
      obtain ⟨spaces, symbol, whole, blank, isSymbol⟩ := token_split_of_diceless diceless found
      have split : input = (spaces ++ [symbol]) ++ rest := by simp [whole]
      have later := ih (diceless.of_suffix (token_suffix found))
      rw [tokenRun_of_token found split]
      intro character member
      rcases List.mem_append.mp member with early | late
      · rcases List.mem_append.mp early with space | last
        · exact .inr (blank character space)
        · exact .inl (List.mem_singleton.mp last ▸ isSymbol)
      · exact later character late

/-- The run of a text without dice ends in a symbol. -/
theorem tokenRun_last {input : List Char} (diceless : Diceless input)
    (filled : tokenRun input ≠ []) :
    ∃ front last, tokenRun input = front ++ [last] ∧ isSymbol last = true := by
  induction input using token_induction with
  | last input missing => exact absurd (tokenRun_of_none missing) filled
  | step input rest found ih =>
      obtain ⟨spaces, symbol, whole, blank, isSymbol⟩ := token_split_of_diceless diceless found
      have split : input = (spaces ++ [symbol]) ++ rest := by simp [whole]
      rw [tokenRun_of_token found split]
      by_cases empty : tokenRun rest = []
      · exact ⟨spaces, symbol, by simp [empty], isSymbol⟩
      · obtain ⟨front, last, same, isLast⟩ :=
          ih (diceless.of_suffix (token_suffix found)) empty
        exact ⟨spaces ++ [symbol] ++ front, last, by simp [same], isLast⟩

end DiceChat.Grammar
