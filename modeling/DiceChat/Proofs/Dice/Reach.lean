import Mathlib.Data.List.DropRight
import DiceChat.Proofs.Dice.Overrun
import DiceChat.Proofs.Dice.Tokens

/-!
This file compares how far the run of tokens and the grammar reach. Tokens and the grammar read a
text in the same steps with two exceptions, both at the end of an expression: a number has at most
five digits and a token takes all of them, and digits before a word that starts with `d` are a
number but no token. So the run reaches at least to the end of the expression, or it stops before
a last bare number.
-/

namespace DiceChat.Grammar

/-- Space in front makes no difference to a token. -/
theorem token_skipSpace (input : List Char) : token (skipSpace input) = token input := by
  have twice : skipSpace (skipSpace input) = skipSpace input := List.dropWhile_idempotent _ input
  unfold token
  rw [twice]

/-- Space in front is kept only if no token follows it. -/
theorem afterTokens_skipSpace {input next : List Char} (found : token input = some next) :
    afterTokens (skipSpace input) = afterTokens input := by
  rw [afterTokens_of_token found, afterTokens_of_token ((token_skipSpace input).trans found)]

/-- Behind a run and space the same text follows, whether or not space stood before the run. -/
theorem skipSpace_afterTokens (input : List Char) :
    skipSpace (afterTokens (skipSpace input)) = skipSpace (afterTokens input) := by
  cases found : token input with
  | some next => rw [afterTokens_skipSpace found]
  | none =>
      rw [afterTokens_of_none found, afterTokens_of_none ((token_skipSpace input).trans found)]
      exact List.dropWhile_idempotent _ input

/-- A symbol is a token and no digit. -/
theorem token_of_symbol {character : Char} (symbol : isSymbol character = true)
    (rest : List Char) : token (character :: rest) = some rest ∧ character.isDigit = false := by
  rcases isSymbol_cases symbol with
    rfl | rfl | rfl | rfl | rfl | rfl | rfl | rfl | rfl | rfl | rfl | rfl <;>
    exact ⟨rfl, by decide⟩

theorem isSymbol_opening {opening closing : Char} (closes : closerOf opening = some closing) :
    isSymbol opening = true := by
  rcases opening_cases closes with rfl | rfl | rfl <;> decide

theorem isSymbol_closing {opening closing : Char} (closes : closerOf opening = some closing) :
    isSymbol closing = true := by
  rcases closing_cases closes with rfl | rfl | rfl <;> decide

theorem isSymbol_operator {level : Level} {symbol : Char} {operator : Operator}
    (reads : level.operator? symbol = some operator) : isSymbol symbol = true := by
  rcases Level.operator?_eq_some_iff.mp reads with
    ⟨-, rfl, -⟩ | ⟨-, rfl, -⟩ | ⟨-, rfl | rfl, -⟩ | ⟨-, rfl | rfl, -⟩ <;> decide

/-- A symbol after space is a token, and no digit stands before it. -/
theorem token_before_symbol {input rest : List Char} {symbol : Char}
    (skipped : skipSpace input = symbol :: rest) (isSymbol : isSymbol symbol = true) :
    token input = some rest ∧ Text.Stops Char.isDigit input := by
  obtain ⟨isToken, notDigit⟩ := token_of_symbol isSymbol rest
  refine ⟨by rw [← token_skipSpace, skipped, isToken], fun first head => ?_⟩
  obtain ⟨others, rfl⟩ := List.head?_eq_some_iff.mp head
  by_cases space : Text.isChatSpace first = true
  · exact Text.isDigit_of_isChatSpace space
  · rw [skipSpace, List.dropWhile_cons_of_neg space] at skipped
    obtain ⟨rfl, -⟩ := List.cons.injEq .. ▸ skipped
    exact notDigit

/-- No space stands before a leaf. -/
theorem Leaf.skipSpace_eq {input rest : List Char} {value : WrittenExpr}
    (isLeaf : Leaf input value rest) : skipSpace input = input := by
  obtain ⟨first, others, rfl, dice⟩ := isLeaf.head
  apply List.dropWhile_cons_of_neg
  intro space
  rcases dice with digit | rfl
  · exact absurd (Text.isDigit_of_isChatSpace space) (by simp [digit])
  · exact absurd space (by decide)

/-- A bare number before a word that starts with `d`. -/
structure BeforeWord (digits rest : List Char) : Prop where
  isNum : NumAt (digits ++ rest) digits rest
  noRoll : ∀ counter face later, ¬ RollAt (digits ++ rest) counter face later
  word : ∃ others, rest = 'd' :: others

/-- The run of tokens reaches the end of an expression, and goes on from there unless it took more
digits, or it stops before a last bare number. -/
inductive Passes (input rest : List Char) : Prop where
  | through {next : List Char} (found : token input = some next)
      (reach : afterTokens input <:+ rest)
      (aligned : Text.Stops Char.isDigit rest → afterTokens input = afterTokens rest)
  | short {digits : List Char} (start : input = digits ++ rest ∨ (token input).isSome = true)
      (left : skipSpace (afterTokens input) = digits ++ rest) (number : BeforeWord digits rest)

section

variable {input middle rest : List Char} {value : WrittenExpr}

/-- A run that goes on from the end of an expression reaches it. -/
theorem Passes.ofAligned {next : List Char} (found : token input = some next)
    (same : afterTokens input = afterTokens rest) : Passes input rest :=
  .through found (same ▸ afterTokens_suffix rest) fun _ => same

/-- A roll is a token. -/
theorem RollAt.token_eq {counter face : List Char} (isRoll : RollAt input counter face rest) :
    token input = some rest := by
  have isToken := rollToken_eq_some_iff.mpr ⟨isRoll.whole, isRoll.counterRun, isRoll.faceRun⟩
  rw [token, (Leaf.roll isRoll).skipSpace_eq, isToken]
  exact if_neg fun word => isRoll.notWord (startsWord_eq_true_iff.mp word)

/-- A number that is no roll is a token with all digits behind it, unless a word follows. -/
theorem NumAt.passes {digits : List Char}
    (noRoll : ∀ counter face later, ¬ RollAt input counter face later)
    (isNum : NumAt input digits rest) : Passes input rest := by
  have solid := (Leaf.num noRoll isNum).skipSpace_eq
  cases isToken : rollToken input with
  | some result =>
      obtain ⟨⟨counter, face⟩, later⟩ := result
      obtain ⟨whole, counterRun, faceRun⟩ := rollToken_eq_some_iff.mp isToken
      have word : face = [] ∧ startsWithLetter later = true := by
        by_contra notWord
        exact noRoll counter face later ⟨whole, counterRun, faceRun, notWord⟩
      -- The number is the counter of what would be a roll.
      have run : DigitRun 5 counter ('d' :: (face ++ later)) :=
        ⟨counterRun.digit, by have := counterRun.short; omega, .inr (stops_letter _)⟩
      have same := run.takeDigits_eq
      rw [← whole, isNum.whole, isNum.run.takeDigits_eq, Prod.mk.injEq] at same
      have missing : token input = none := by
        rw [token, solid, isToken]
        exact if_pos (startsWord_eq_true_iff.mpr word)
      obtain rfl := isNum.whole
      refine .short (.inl rfl) ?_ ⟨isNum, noRoll, _, same.2⟩
      rw [afterTokens_of_none missing, solid]
  | none =>
      obtain ⟨first, others, rfl⟩ := List.exists_cons_of_ne_nil isNum.filled
      obtain ⟨firstDigit, otherDigits⟩ := List.forall_mem_cons.mp isNum.run.digit
      obtain rfl := isNum.whole
      have found : token (first :: others ++ rest) = some (rest.dropWhile Char.isDigit) := by
        rw [token, solid, isToken]
        simp only [List.cons_append, firstDigit, if_true, List.dropWhile_append_of_pos otherDigits]
      refine .through found ?_ fun stops => ?_
      · rw [afterTokens_of_token found]
        exact (afterTokens_suffix _).trans (List.dropWhile_suffix _)
      · have none : ∀ character ∈ ([] : List Char), character.isDigit = true := by simp
        have all := Text.dropWhile_of_stops none stops
        rw [List.nil_append] at all
        rw [afterTokens_of_token found, all]

theorem Leaf.passes (isLeaf : Leaf input value rest) : Passes input rest := by
  cases isLeaf with
  | roll isRoll => exact .ofAligned isRoll.token_eq (afterTokens_of_token isRoll.token_eq)
  | num noRoll isNum => exact isNum.passes noRoll

/-- Where a symbol follows an expression, the run of tokens goes on from there. -/
theorem Passes.afterTokens_eq {symbol : Char} (passes : Passes input middle)
    (skipped : skipSpace middle = symbol :: rest) (isSymbol : isSymbol symbol = true) :
    (token input).isSome = true ∧ afterTokens input = afterTokens rest := by
  obtain ⟨isToken, stops⟩ := token_before_symbol skipped isSymbol
  cases passes with
  | through found reach aligned =>
      refine ⟨by rw [found]; rfl, ?_⟩
      rw [aligned stops, afterTokens_of_token isToken]
  | short start left number =>
      obtain ⟨others, rfl⟩ := number.word
      have letter : symbol = 'd' := (List.cons.injEq .. ▸ skipped).1.symm
      exact absurd isSymbol (by rw [letter]; decide)

/-- The run passes an expression if it passes its end from some later place on. -/
theorem Passes.of_later {later : List Char} (start : (token input).isSome = true)
    (same : afterTokens input = afterTokens later) (passes : Passes (skipSpace later) rest) :
    Passes input rest := by
  obtain ⟨first, isFirst⟩ := Option.isSome_iff_exists.mp start
  cases passes with
  | through found reach aligned =>
      have skipped := afterTokens_skipSpace ((token_skipSpace later).symm.trans found)
      rw [skipped, ← same] at reach aligned
      exact .through isFirst reach aligned
  | short _ left number =>
      rw [skipSpace_afterTokens, ← same] at left
      exact .short (.inr start) left number

end

/-- The run of tokens passes everything that the grammar reads. -/
theorem Reads.passes {level : Level} {input rest : List Char} {value : WrittenExpr}
    (reads : Reads level input (some (value, rest))) : Passes input rest := by
  generalize same : some (value, rest) = result at reads
  induction reads generalizing value rest with
  | leaf isLeaf =>
      obtain ⟨rfl, rfl⟩ := Prod.mk.injEq .. ▸ Option.some.inj same
      exact isLeaf.passes
  | @group opening closing content inner closes reads ih =>
      obtain ⟨isToken, -⟩ := token_of_symbol (isSymbol_opening closes) content
      obtain ⟨middle, rfl, isClosed⟩ := closed_eq_some_iff.mp same.symm
      obtain ⟨start, aligned⟩ := (ih rfl).afterTokens_eq isClosed (isSymbol_closing closes)
      obtain ⟨next, found⟩ := Option.isSome_iff_exists.mp start
      have skipped := afterTokens_skipSpace ((token_skipSpace content).symm.trans found)
      exact .ofAligned isToken ((afterTokens_of_token isToken).trans (skipped.symm.trans aligned))
  | noAtom _ _ => exact absurd same (by simp)
  | missing _ _ _ => exact absurd same (by simp)
  | single below first noOperator ih => exact ih same
  | @chained low high input middle later left operator others below first isOperator reads
      firstPasses ih =>
      have whole := Option.some.inj same
      cases others with
      | none =>
          obtain ⟨rfl, rfl⟩ := Prod.mk.injEq .. ▸ whole
          exact firstPasses rfl
      | some found =>
          obtain ⟨-, rfl⟩ := Prod.mk.injEq .. ▸ whole
          obtain ⟨symbol, after, skipped, isSymbol, rfl⟩ := isOperator
          obtain ⟨start, aligned⟩ :=
            (firstPasses rfl).afterTokens_eq skipped (isSymbol_operator isSymbol)
          exact .of_later start aligned (ih rfl)

/-- No expression starts with space. -/
theorem expr_of_space {space : Char} (blank : Text.isChatSpace space = true)
    (others : List Char) : expr maxExprDepth (space :: others) = .failed := by
  have noLeaf (value : WrittenExpr) (rest : List Char) : ¬ Leaf (space :: others) value rest := by
    intro isLeaf
    have solid := isLeaf.skipSpace_eq
    have shorter := length_skipSpace others
    rw [skipSpace, List.dropWhile_cons_of_pos blank] at solid
    have same := congrArg List.length solid
    rw [List.length_cons, ← skipSpace] at same
    omega
  have noBracket (opening : Char) (content : List Char)
      (same : space :: others = opening :: content) : closerOf opening = none := by
    obtain ⟨rfl, -⟩ := List.cons.injEq .. ▸ same
    cases closes : closerOf space with
    | none => rfl
    | some closing =>
        rcases opening_cases closes with rfl | rfl | rfl <;> exact absurd blank (by decide)
  have failed : readFrom .atom 0 (space :: others) = .failed :=
    readFrom_noAtom noLeaf noBracket (by decide)
  exact readFrom_failed .sum (readFrom_failed .product failed)

/-- A number before a word is read as it is. -/
theorem BeforeWord.expr_eq {digits rest : List Char} (number : BeforeWord digits rest) :
    expr maxExprDepth (digits ++ rest) =
      .read (.num (Int64.ofNat (Text.digitsValue digits))) rest := by
  have noOperator (level : Level) (operator : Operator) (later : List Char) :
      ¬ OperatorAt level rest operator later := by
    rintro ⟨symbol, after, skipped, reads, -⟩
    obtain ⟨others, rfl⟩ := number.word
    have letter : symbol = 'd' := (List.cons.injEq .. ▸ skipped).1.symm
    exact absurd (isSymbol_operator reads) (by rw [letter]; decide)
  have first : readFrom .atom 0 (digits ++ rest) =
      .read (.num (Int64.ofNat (Text.digitsValue digits))) rest :=
    readFrom_leaf (.num number.noRoll number.isNum)
  exact readFrom_single .sum (readFrom_single .product first (noOperator _)) (noOperator _)

end DiceChat.Grammar
