import Mathlib.Data.List.TakeWhile
import DiceChat.Dice.TokenRun

/-!
This file says what a successful reading of an expression means: the text it takes is written by
the right-recursive grammar within the budget, and the value is the tree of that writing. Facts
about parsed expressions follow by induction on the writing, without opening the reader again.
-/

namespace DiceChat.Grammar

/-- An expression is a sum of products of atoms. -/
inductive Level where
  | atom
  | product
  | sum
  deriving DecidableEq, Repr

/-- A chain of one level joins operands of the level below it. -/
inductive Level.Below : Level → Level → Prop where
  | product : Below .atom .product
  | sum : Below .product .sum

/-- Each level above the atoms has its own operators. -/
def Level.operator? : Level → Char → Option Operator
  | .atom => fun _ => none
  | .product => Operator.multiplicative?
  | .sum => Operator.additive?

/-- Each of the three opening brackets has its own closing bracket, and no other character opens. -/
theorem closerOf_eq_some_iff {opening closing : Char} :
    closerOf opening = some closing ↔
      (opening = '(' ∧ closing = ')') ∨ (opening = '（' ∧ closing = '）') ∨
        (opening = '[' ∧ closing = ']') := by
  constructor
  · intro closes
    unfold closerOf at closes
    split at closes
    · exact .inl ⟨rfl, (Option.some.inj closes).symm⟩
    · exact .inr (.inl ⟨rfl, (Option.some.inj closes).symm⟩)
    · exact .inr (.inr ⟨rfl, (Option.some.inj closes).symm⟩)
    · exact absurd closes (by simp)
  · rintro (⟨rfl, rfl⟩ | ⟨rfl, rfl⟩ | ⟨rfl, rfl⟩) <;> rfl

/-- Sums have plus and minus. Products have two signs for each of their operators, and atoms have no
operator. -/
theorem Level.operator?_eq_some_iff {level : Level} {symbol : Char} {operator : Operator} :
    level.operator? symbol = some operator ↔
      (level = .sum ∧ symbol = '+' ∧ operator = .add) ∨
        (level = .sum ∧ symbol = '-' ∧ operator = .sub) ∨
        (level = .product ∧ (symbol = '*' ∨ symbol = '×') ∧ operator = .mul) ∨
        (level = .product ∧ (symbol = '/' ∨ symbol = '÷') ∧ operator = .div) := by
  constructor
  · intro reads
    cases level with
    | atom => exact absurd reads (by simp [operator?])
    | product =>
        rw [operator?, Operator.multiplicative?.eq_def] at reads
        split at reads <;> simp_all
    | sum =>
        rw [operator?, Operator.additive?.eq_def] at reads
        split at reads <;> simp_all
  · rintro (⟨rfl, rfl, rfl⟩ | ⟨rfl, rfl, rfl⟩ | ⟨rfl, rfl | rfl, rfl⟩ | ⟨rfl, rfl | rfl, rfl⟩) <;> rfl

/-- Blank text has space only. -/
def Blank (text : List Char) : Prop := ∀ character ∈ text, Text.isChatSpace character = true

/-- These digits write a roll. -/
def rollOf (counter face : List Char) : WrittenExpr :=
  .roll (if counter.isEmpty then 1 else UInt32.ofNat (Text.digitsValue counter))
    (if face.isEmpty then none else some (UInt32.ofNat (Text.digitsValue face)))

/-- A text writes a value within a budget. An operand before an operator has the whole budget of
its chain, what follows the operator has one level less, and so has the content of a bracket. -/
inductive Written : Level → Nat → WrittenExpr → List Char → Prop where
  | roll {budget : Nat} {counter face : List Char}
      (counterDigits : ∀ character ∈ counter, character.isDigit = true)
      (counterShort : counter.length ≤ 3)
      (faceDigits : ∀ character ∈ face, character.isDigit = true) (faceShort : face.length ≤ 4) :
      Written .atom budget (rollOf counter face) (counter ++ 'd' :: face)
  | num {budget : Nat} {digits : List Char}
      (digit : ∀ character ∈ digits, character.isDigit = true) (filled : digits ≠ [])
      (short : digits.length ≤ 5) :
      Written .atom budget (.num (Int64.ofNat (Text.digitsValue digits))) digits
  | group {budget : Nat} {opening closing : Char} {value : WrittenExpr}
      {before content after : List Char} (closes : closerOf opening = some closing)
      (blankBefore : Blank before) (blankAfter : Blank after)
      (inner : Written .sum budget value content) :
      Written .atom (budget + 1) value (opening :: (before ++ content ++ after ++ [closing]))
  | single {low high : Level} {budget : Nat} {value : WrittenExpr} {text : List Char}
      (below : low.Below high) (operand : Written low budget value text) :
      Written high budget value text
  | linked {low high : Level} {budget : Nat} {left right : WrittenExpr}
      {leftText before after rightText : List Char} {symbol : Char} {operator : Operator}
      (below : low.Below high) (reads : high.operator? symbol = some operator)
      (blankBefore : Blank before) (blankAfter : Blank after)
      (first : Written low (budget + 2) left leftText)
      (others : Written high (budget + 1) right rightText) :
      Written high (budget + 2) (.binary operator left right)
        (leftText ++ before ++ symbol :: (after ++ rightText))

/-- The digits of a roll and the letter between them make a word. -/
theorem isAlphanum_of_mem_roll {counter face : List Char}
    (counterDigits : ∀ character ∈ counter, character.isDigit = true)
    (faceDigits : ∀ character ∈ face, character.isDigit = true) :
    ∀ character ∈ counter ++ 'd' :: face, character.isAlphanum = true := by
  intro character member
  rcases List.mem_append.mp member with inCounter | inFace
  · exact Bool.or_eq_true_iff.mpr (.inr (counterDigits character inCounter))
  · rcases List.mem_cons.mp inFace with rfl | inFace
    · decide
    · exact Bool.or_eq_true_iff.mpr (.inr (faceDigits character inFace))

/-- A written text has at least one character. -/
theorem Written.ne_nil {level : Level} {budget : Nat} {value : WrittenExpr} {text : List Char}
    (written : Written level budget value text) : text ≠ [] := by
  induction written with
  | roll => simp
  | num _ filled => exact filled
  | group => simp
  | single _ _ ih => exact ih
  | linked => simp

/-- A reader of one level reads only what is written on that level. -/
def Sound (level : Level) (reader : Nat → List Char → Reading WrittenExpr) : Prop :=
  ∀ budget input value rest, reader budget input = .read value rest →
    ∃ text, input = text ++ rest ∧ Written level budget value text

/-- Skipped space is blank. -/
theorem skipSpace_split (input : List Char) :
    ∃ before, input = before ++ skipSpace input ∧ Blank before := by
  refine ⟨input.takeWhile Text.isChatSpace, ?_, ?_⟩
  · rw [skipSpace, List.takeWhile_append_dropWhile]
  · intro character member
    exact List.mem_takeWhile_imp member

/-- An operator stands between blank texts. -/
theorem infixed_split {operator? : Char → Option Operator} {operator : Operator}
    {input later : List Char} (found : infixed operator? input = some (operator, later)) :
    ∃ before symbol after, input = before ++ symbol :: (after ++ later) ∧
      operator? symbol = some operator ∧ Blank before ∧ Blank after := by
  obtain ⟨before, whole, blankBefore⟩ := skipSpace_split input
  unfold infixed at found
  split at found
  · exact absurd found (by simp)
  · rename_i symbol rest same
    obtain ⟨after, tail, blankAfter⟩ := skipSpace_split rest
    obtain ⟨_, reads, pair⟩ := Option.map_eq_some_iff.mp found
    obtain ⟨rfl, rfl⟩ := Prod.mk.injEq .. ▸ pair
    refine ⟨before, symbol, after, ?_, reads, blankBefore, blankAfter⟩
    rw [← tail, ← same]
    exact whole

/-- A roll is its two runs of digits around the letter. -/
theorem rollToken_split {input rest counter face : List Char}
    (found : rollToken input = some ((counter, face), rest)) :
    input = counter ++ 'd' :: face ++ rest ∧
      (∀ character ∈ counter, character.isDigit = true) ∧ counter.length ≤ 3 ∧
      (∀ character ∈ face, character.isDigit = true) ∧ face.length ≤ 4 := by
  unfold rollToken at found
  dsimp only at found
  split at found
  · rename_i later same
    have whole := Text.takeDigits_append 3 input
    have tail := Text.takeDigits_append 4 later
    simp only [Option.some.injEq, Prod.mk.injEq] at found
    obtain ⟨⟨rfl, rfl⟩, rfl⟩ := found
    refine ⟨?_, fun _ => Text.isDigit_of_mem_takeDigits, Text.takeDigits_length 3 input,
      fun _ => Text.isDigit_of_mem_takeDigits, Text.takeDigits_length 4 later⟩
    rw [List.append_assoc, List.cons_append, tail, ← same, whole]
  · exact absurd found (by simp)

/-- A roll that was read is written. -/
theorem roll_written {budget : Nat} {input rest : List Char} {value : WrittenExpr}
    (found : roll input = some (value, rest)) :
    ∃ text, input = text ++ rest ∧ Written .atom budget value text := by
  unfold roll at found
  split at found
  · exact absurd found (by simp)
  · rename_i counter face later same
    obtain ⟨whole, counterDigits, counterShort, faceDigits, faceShort⟩ := rollToken_split same
    split at found
    · exact absurd found (by simp)
    · simp only [Option.some.injEq, Prod.mk.injEq] at found
      obtain ⟨rfl, rfl⟩ := found
      exact ⟨_, whole, .roll counterDigits counterShort faceDigits faceShort⟩

/-- A number that was read is written. -/
theorem num_written {budget : Nat} {input rest : List Char} {value : WrittenExpr}
    (found : num input = some (value, rest)) :
    ∃ text, input = text ++ rest ∧ Written .atom budget value text := by
  unfold num at found
  dsimp only at found
  split at found
  · exact absurd found (by simp)
  · rename_i filled
    simp only [Option.some.injEq, Prod.mk.injEq] at found
    obtain ⟨rfl, rfl⟩ := found
    refine ⟨_, (Text.takeDigits_append 5 input).symm, .num ?_ ?_ (Text.takeDigits_length 5 input)⟩
    · intro character member
      exact Text.isDigit_of_mem_takeDigits member
    · simpa using filled

/-- A bracket around written content is a written atom. -/
theorem group_sound {content : Nat → List Char → Reading WrittenExpr}
    (sound : Sound .sum content) : Sound .atom (group content) := by
  intro budget input value rest found
  match budget, input with
  | 0, _ => exact absurd found (by simp [group])
  | _ + 1, [] => exact absurd found (by simp [group])
  | budget + 1, opening :: inner =>
      rw [group] at found
      split at found
      · exact absurd found (by simp)
      · rename_i closing closes
        unfold closeGroup at found
        split at found
        · exact absurd found (by simp)
        · exact absurd found (by simp)
        · rename_i inside later same
          split at found
          · exact absurd found (by simp)
          · rename_i character last skipped
            split at found
            · rename_i closed
              obtain ⟨rfl, rfl⟩ := Reading.read.injEq .. ▸ found
              obtain ⟨before, start, blankBefore⟩ := skipSpace_split inner
              obtain ⟨after, finish, blankAfter⟩ := skipSpace_split later
              obtain ⟨text, middle, written⟩ := sound _ _ _ _ same
              refine ⟨_, ?_, .group closes blankBefore blankAfter written⟩
              rw [start, middle, finish, skipped, closed]
              simp
            · exact absurd found (by simp)

/-- An atom that was read is written. -/
theorem atom_sound {content : Nat → List Char → Reading WrittenExpr}
    (sound : Sound .sum content) : Sound .atom (atom content) := by
  intro budget input value rest found
  unfold atom at found
  split at found
  · rename_i first later same
    obtain ⟨rfl, rfl⟩ := Reading.read.injEq .. ▸ found
    rcases Option.or_eq_some_iff.mp same with isRoll | ⟨-, isNum⟩
    · exact roll_written isRoll
    · exact num_written isNum
  · exact group_sound sound budget input value rest found

/-- The operands after the first continue the writing of a chain. -/
theorem links_written {low high : Level} (below : low.Below high)
    {operand : Nat → List Char → Reading WrittenExpr} (sound : Sound low operand)
    (budget : Nat) (input rest firstText : List Char) (first : WrittenExpr)
    (others : List (Operator × WrittenExpr)) (start : Written low budget first firstText)
    (found : links high.operator? operand budget input = .read others rest) :
    ∃ text, input = text ++ rest ∧ Written high budget (foldChain first others)
      (firstText ++ text) := by
  induction budget using Nat.strongRecOn generalizing input firstText first others with
  | ind budget ih =>
      rw [links] at found
      split at found
      · obtain ⟨rfl, rfl⟩ := Reading.read.injEq .. ▸ found
        exact ⟨[], rfl, by simpa [foldChain] using .single below start⟩
      · rename_i operator later isInfixed
        obtain ⟨before, symbol, after, whole, reads, blankBefore, blankAfter⟩ :=
          infixed_split isInfixed
        match budget with
        | 0 => exact absurd found (by simp)
        | 1 => exact absurd found (by simp)
        | budget + 2 =>
            dsimp only at found
            split at found
            · exact absurd found (by simp)
            · obtain ⟨rfl, rfl⟩ := Reading.read.injEq .. ▸ found
              exact ⟨[], rfl, by simpa [foldChain] using .single below start⟩
            · rename_i next middle isOperand
              obtain ⟨nextText, taken, nextWritten⟩ := sound _ _ _ _ isOperand
              cases isTail : links high.operator? operand (budget + 1) middle with
              | tooDeep => exact absurd (isTail ▸ found) (by simp [Reading.map])
              | failed => exact absurd (isTail ▸ found) (by simp [Reading.map])
              | read tail last =>
                  rw [isTail, Reading.map] at found
                  obtain ⟨rfl, rfl⟩ := Reading.read.injEq .. ▸ found
                  obtain ⟨text, tailWhole, tailWritten⟩ :=
                    ih (budget + 1) (by omega) middle nextText next tail nextWritten isTail
                  refine ⟨before ++ symbol :: (after ++ (nextText ++ text)), ?_, ?_⟩
                  · rw [whole, taken, tailWhole]
                    simp
                  · have linked := Written.linked below reads blankBefore blankAfter start
                      tailWritten
                    simpa [foldChain] using linked

/-- A chain of sound operands is sound on the level above them. -/
theorem chain_sound {low high : Level} (below : low.Below high)
    {operand : Nat → List Char → Reading WrittenExpr} (sound : Sound low operand) :
    Sound high (chain high.operator? operand) := by
  intro budget input value rest found
  unfold chain at found
  split at found
  · exact absurd found (by simp)
  · exact absurd found (by simp)
  · rename_i first middle isFirst
    obtain ⟨firstText, whole, start⟩ := sound _ _ _ _ isFirst
    cases isTail : links high.operator? operand budget middle with
    | tooDeep => exact absurd (isTail ▸ found) (by simp [Reading.map])
    | failed => exact absurd (isTail ▸ found) (by simp [Reading.map])
    | read others last =>
        rw [isTail, Reading.map] at found
        obtain ⟨rfl, rfl⟩ := Reading.read.injEq .. ▸ found
        obtain ⟨text, tail, written⟩ :=
          links_written below sound budget middle last firstText first others start isTail
        exact ⟨firstText ++ text, by rw [whole, tail, List.append_assoc], written⟩

/-- A sum over sound content is sound. -/
theorem sum_sound {content : Nat → List Char → Reading WrittenExpr}
    (sound : Sound .sum content) : Sound .sum (sum content) :=
  chain_sound .sum (chain_sound .product (atom_sound sound))

/-- Reading within any number of brackets is sound. -/
theorem exprWithin_sound (brackets : Nat) : Sound .sum (exprWithin brackets) := by
  induction brackets with
  | zero =>
      apply sum_sound
      intro budget input value rest found
      exact absurd found (by simp)
  | succ brackets ih => exact sum_sound ih

/-- An expression that was read is written within its budget. -/
theorem expr_written {budget : Nat} {input rest : List Char} {value : WrittenExpr}
    (found : expr budget input = .read value rest) :
    ∃ text, input = text ++ rest ∧ Written .sum budget value text :=
  exprWithin_sound budget budget input value rest found

end DiceChat.Grammar
