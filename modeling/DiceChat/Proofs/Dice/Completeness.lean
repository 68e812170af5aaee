import DiceChat.Proofs.Dice.Reach
import DiceChat.Proofs.Dice.Rendered

/-!
This file reads back what is written. Every text that the grammar writes within a budget is read
again with the same value, in front of any text that can be cut off behind it. Together with the
soundness of the reader, a text alone is read to its end exactly if it is written. So the text that
an expression was read from decides its value, and what stood around that text does not.
-/

namespace DiceChat.Grammar

/-- A text can be cut off behind an expression of the level: it ends the expression, and it makes no
word of a last die without a face. -/
structure Detached (level : Level) (rest : List Char) : Prop extends Ends level rest where
  noWord : startsWithLetter rest = false

section

variable {low high level : Level} {rest later : List Char} {symbol : Char}

theorem Detached.of_below (below : low.Below high) (detached : Detached high rest) :
    Detached low rest :=
  ⟨detached.toEnds.of_below below, detached.noWord⟩

theorem detached_nil (level : Level) : Detached level [] := ⟨ends_nil level, rfl⟩

/-- No space stands before a symbol. -/
theorem skipSpace_symbol (isSymbol : isSymbol symbol = true) (rest : List Char) :
    skipSpace (symbol :: rest) = symbol :: rest := by
  rcases isSymbol_cases isSymbol with
    rfl | rfl | rfl | rfl | rfl | rfl | rfl | rfl | rfl | rfl | rfl | rfl <;> rfl

/-- Blank text is skipped up to where no space stands. -/
theorem skipSpace_append {blank text : List Char} (isBlank : Blank blank)
    (solid : skipSpace text = text) : skipSpace (blank ++ text) = text := by
  rw [skipSpace, List.dropWhile_append_of_pos isBlank, ← skipSpace, solid]

/-- A symbol behind space can be cut off, unless it continues the expression. -/
theorem detached_of_symbol (skipped : skipSpace rest = symbol :: later)
    (isSymbol : isSymbol symbol = true) (alone : ¬ Followed level rest) : Detached level rest := by
  have noWord : startsWithLetter rest = false := by
    cases rest with
    | nil => rfl
    | cons first others =>
        by_cases space : Text.isChatSpace first = true
        · exact Text.isAlpha_of_isChatSpace space
        · rw [skipSpace, List.dropWhile_cons_of_neg space] at skipped
          obtain ⟨rfl, -⟩ := List.cons.injEq .. ▸ skipped
          rcases isSymbol_cases isSymbol with
            rfl | rfl | rfl | rfl | rfl | rfl | rfl | rfl | rfl | rfl | rfl | rfl <;> rfl
  refine ⟨⟨alone, (token_before_symbol skipped isSymbol).2, fun head => ?_⟩, noWord⟩
  obtain ⟨others, rfl⟩ := List.head?_eq_some_iff.mp head
  exact absurd noWord (by simp [startsWithLetter])

/-- A written roll is read back. -/
theorem leaf_rollOf {counter face : List Char}
    (counterDigits : ∀ character ∈ counter, character.isDigit = true)
    (counterShort : counter.length ≤ 3)
    (faceDigits : ∀ character ∈ face, character.isDigit = true) (faceShort : face.length ≤ 4)
    (detached : Detached level rest) :
    Leaf (counter ++ 'd' :: face ++ rest) (rollOf counter face) rest := by
  have isRoll : RollAt (counter ++ 'd' :: (face ++ rest)) counter face rest := by
    refine ⟨rfl, ⟨counterDigits, counterShort, .inr (stops_letter _)⟩,
      ⟨faceDigits, faceShort, .inr detached.noDigit⟩, fun word => ?_⟩
    exact absurd word.2 (by simp [detached.noWord])
  rw [List.append_assoc, List.cons_append]
  exact .roll isRoll

end

section

variable {level : Level} {budget : Nat} {value : WrittenExpr} {text : List Char}

/-- A written text starts with a digit, with the letter of a roll or with a bracket. -/
theorem Written.head (written : Written level budget value text) :
    ∃ first others, text = first :: others ∧
      (first.isDigit = true ∨ first = 'd' ∨ ∃ closing, closerOf first = some closing) := by
  induction written with
  | @roll _ counter face counterDigits _ _ _ =>
      cases counter with
      | nil => exact ⟨'d', face, rfl, .inr (.inl rfl)⟩
      | cons first others =>
          exact ⟨first, _, rfl, .inl (counterDigits first List.mem_cons_self)⟩
  | @num _ digits digit filled _ =>
      obtain ⟨first, others, rfl⟩ := List.exists_cons_of_ne_nil filled
      exact ⟨first, others, rfl, .inl (digit first List.mem_cons_self)⟩
  | @group _ opening closing _ _ _ _ closes _ _ _ _ =>
      exact ⟨opening, _, rfl, .inr (.inr ⟨closing, closes⟩)⟩
  | single _ _ ih => exact ih
  | linked _ _ _ _ _ _ ih _ =>
      obtain ⟨first, others, rfl, opens⟩ := ih
      exact ⟨first, _, rfl, opens⟩

/-- No space stands before a written text. -/
theorem Written.skipSpace_eq (written : Written level budget value text) (rest : List Char) :
    skipSpace (text ++ rest) = text ++ rest := by
  obtain ⟨first, others, rfl, opens⟩ := written.head
  apply List.dropWhile_cons_of_neg
  intro space
  rcases opens with digit | rfl | ⟨closing, closes⟩
  · exact absurd (Text.isDigit_of_isChatSpace space) (by simp [digit])
  · exact absurd space (by decide)
  · rcases opening_cases closes with rfl | rfl | rfl <;> exact absurd space (by decide)

/-- A written text is read in front of every text that can be cut off. The depth it is read from
leaves the levels of its budget. -/
theorem Written.readsWithin (written : Written level budget value text) {depth : Nat}
    (room : depth + budget = maxExprDepth) {rest : List Char} (detached : Detached level rest) :
    ReadsWithin level depth (text ++ rest) value rest := by
  induction written generalizing depth rest with
  | roll counterDigits counterShort faceDigits faceShort =>
      exact .leaf (leaf_rollOf counterDigits counterShort faceDigits faceShort detached)
  | num digit filled short =>
      exact .leaf (leaf_digits ⟨digit, short, .inr detached.noDigit⟩ filled detached.toEnds)
  | @group budget opening closing value before content after closes blankBefore blankAfter inner
      ih =>
      have isSymbol := isSymbol_closing closes
      have isClosed : skipSpace (after ++ closing :: rest) = closing :: rest :=
        skipSpace_append blankAfter (skipSpace_symbol isSymbol rest)
      have behind : Detached .sum (after ++ closing :: rest) :=
        detached_of_symbol isClosed isSymbol (not_followed_of_closing closes isClosed)
      have inside : ReadsWithin .sum (depth + 1) (content ++ (after ++ closing :: rest)) value
          (after ++ closing :: rest) := ih (by omega) behind
      rw [← skipSpace_append blankBefore (inner.skipSpace_eq _)] at inside
      have whole := ReadsWithin.group closes (by omega) inside isClosed
      simpa using whole
  | single below operand ih =>
      have first := ih room (detached.of_below below)
      exact .single below first fun _ _ found =>
        detached.notFollowed (followed_of_operatorAt found)
  | @linked low high budget left right leftText before after rightText symbol operator below reads
      blankBefore blankAfter first others leftReads rightReads =>
      have isSymbol := isSymbol_operator reads
      have skipped : skipSpace (before ++ symbol :: (after ++ (rightText ++ rest))) =
          symbol :: (after ++ (rightText ++ rest)) :=
        skipSpace_append blankBefore (skipSpace_symbol isSymbol _)
      have isOperator : OperatorAt high (before ++ symbol :: (after ++ (rightText ++ rest)))
          operator (rightText ++ rest) :=
        ⟨symbol, _, skipped, reads, (skipSpace_append blankAfter (others.skipSpace_eq rest)).symm⟩
      have behind : Detached low (before ++ symbol :: (after ++ (rightText ++ rest))) :=
        detached_of_symbol skipped isSymbol (not_followed_of_operatorAt below isOperator)
      have whole := ReadsWithin.linked below (leftReads room behind) isOperator (by omega)
        (rightReads (by omega) detached)
      simpa using whole

/-- A written text alone is read to its end within the limits. -/
theorem Written.fits (written : Written .sum maxExprDepth value text) :
    ReadsWithin .sum 0 text value [] := by
  have alone := written.readsWithin (Nat.zero_add _) (detached_nil .sum)
  rwa [List.append_nil] at alone

/-- A text alone is read to its end exactly if it is written. -/
theorem expr_eq_read_iff :
    expr maxExprDepth text = .read value [] ↔ Written .sum maxExprDepth value text := by
  constructor
  · intro found
    obtain ⟨taken, whole, written⟩ := expr_written found
    rwa [whole, List.append_nil]
  · intro written
    apply expr_eq_of_fits written.fits
    -- Nothing stands behind the text, so nothing can overrun there.
    rintro chain last ends ⟨operator, later, isOperator, -⟩
    exact (detached_nil .sum).notFollowed (ends.followed isOperator)

end

end DiceChat.Grammar
