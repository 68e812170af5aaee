import DiceChat.Proofs.Dice.Diceless
import DiceChat.Proofs.Text.Runs

/-!
This file holds the grammar of expressions without any bound on the depth, as right-recursive rules
with ordered choice. A sum is a product and perhaps an operator with a sum after it, a product
likewise of atoms, and an atom is a roll, else a number, else a bracketed sum. The rules say both
what is read and where nothing is read, and they leave no choice: each text has one result.
-/

namespace DiceChat.Grammar

/-- A run of digits is as long as it can be up to a limit. -/
structure DigitRun (limit : Nat) (digits rest : List Char) : Prop where
  digit : ∀ character ∈ digits, character.isDigit = true
  short : digits.length ≤ limit
  ends : digits.length = limit ∨ Text.Stops Char.isDigit rest

/-- A roll stands at the front. A letter right behind a `d` without a face makes a word of it. -/
structure RollAt (input counter face rest : List Char) : Prop where
  whole : input = counter ++ 'd' :: (face ++ rest)
  counterRun : DigitRun 3 counter ('d' :: (face ++ rest))
  faceRun : DigitRun 4 face rest
  notWord : ¬ (face = [] ∧ startsWithLetter rest = true)

/-- A number stands at the front. -/
structure NumAt (input digits rest : List Char) : Prop where
  whole : input = digits ++ rest
  filled : digits ≠ []
  run : DigitRun 5 digits rest

/-- A roll is tried before a number. -/
inductive Leaf (input : List Char) : WrittenExpr → List Char → Prop where
  | roll {counter face rest : List Char} (isRoll : RollAt input counter face rest) :
      Leaf input (rollOf counter face) rest
  | num {digits rest : List Char} (noRoll : ∀ counter face rest, ¬ RollAt input counter face rest)
      (isNum : NumAt input digits rest) :
      Leaf input (.num (Int64.ofNat (Text.digitsValue digits))) rest

/-- An operator of the level stands at the front, with space around it. -/
def OperatorAt (level : Level) (input : List Char) (operator : Operator) (later : List Char) :
    Prop :=
  ∃ symbol after, skipSpace input = symbol :: after ∧ level.operator? symbol = some operator ∧
    later = skipSpace after

/-- The content of a bracket counts only if its closing character follows. -/
def closed (closing : Char) : Option (WrittenExpr × List Char) → Option (WrittenExpr × List Char)
  | none => none
  | some (value, middle) =>
      match skipSpace middle with
      | [] => none
      | character :: rest => if character = closing then some (value, rest) else none

/-- Without an operand after it, an operator stays unread together with its space. -/
def joined (operator : Operator) (left : WrittenExpr) (middle : List Char) :
    Option (WrittenExpr × List Char) → WrittenExpr × List Char
  | none => (left, middle)
  | some (right, rest) => (.binary operator left right, rest)

/-- A closed bracket gives its content and what follows its closing character. -/
theorem closed_eq_some_iff {closing : Char} {inner : Option (WrittenExpr × List Char)}
    {value : WrittenExpr} {rest : List Char} :
    closed closing inner = some (value, rest) ↔
      ∃ middle, inner = some (value, middle) ∧ skipSpace middle = closing :: rest := by
  constructor
  · intro same
    cases inner with
    | none => exact absurd same (by simp [closed])
    | some found =>
        obtain ⟨other, middle⟩ := found
        rw [closed] at same
        split at same
        · exact absurd same (by simp)
        · rename_i character later skipped
          split at same
          · rename_i isClosing
            obtain ⟨rfl, rfl⟩ := Prod.mk.injEq .. ▸ Option.some.inj same
            exact ⟨middle, rfl, isClosing ▸ skipped⟩
          · exact absurd same (by simp)
  · rintro ⟨middle, rfl, isClosed⟩
    simp [closed, isClosed]

theorem closed_eq_none {closing : Char} {value : WrittenExpr} {middle : List Char}
    (unclosed : ∀ rest, skipSpace middle ≠ closing :: rest) :
    closed closing (some (value, middle)) = none := by
  rw [Option.eq_none_iff_forall_ne_some]
  intro found same
  obtain ⟨_, whole, isClosed⟩ := closed_eq_some_iff.mp same
  obtain ⟨-, rfl⟩ := Prod.mk.injEq .. ▸ Option.some.inj whole
  exact unclosed _ isClosed

/-- These are the rules of the grammar, with their result on each text. The brackets are those of
`closerOf_eq_some_iff`, and the operators of each level those of `Level.operator?_eq_some_iff`. -/
inductive Reads : Level → List Char → Option (WrittenExpr × List Char) → Prop where
  | leaf {input rest : List Char} {value : WrittenExpr} (isLeaf : Leaf input value rest) :
      Reads .atom input (some (value, rest))
  | group {opening closing : Char} {content : List Char}
      {inner : Option (WrittenExpr × List Char)} (closes : closerOf opening = some closing)
      (reads : Reads .sum (skipSpace content) inner) :
      Reads .atom (opening :: content) (closed closing inner)
  | noAtom {input : List Char} (noLeaf : ∀ value rest, ¬ Leaf input value rest)
      (noBracket : ∀ opening content, input = opening :: content → closerOf opening = none) :
      Reads .atom input none
  | missing {low high : Level} {input : List Char} (below : low.Below high)
      (first : Reads low input none) : Reads high input none
  | single {low high : Level} {input rest : List Char} {value : WrittenExpr}
      (below : low.Below high) (first : Reads low input (some (value, rest)))
      (noOperator : ∀ operator later, ¬ OperatorAt high rest operator later) :
      Reads high input (some (value, rest))
  | chained {low high : Level} {input middle later : List Char} {left : WrittenExpr}
      {operator : Operator} {others : Option (WrittenExpr × List Char)} (below : low.Below high)
      (first : Reads low input (some (left, middle)))
      (isOperator : OperatorAt high middle operator later) (reads : Reads high later others) :
      Reads high input (some (joined operator left middle others))

/-- What is taken of a run of digits ends at the limit or where the digits stop. -/
theorem takeDigits_run (limit : Nat) (input : List Char) :
    DigitRun limit (Text.takeDigits limit input).1 (Text.takeDigits limit input).2 := by
  refine ⟨fun _ => Text.isDigit_of_mem_takeDigits, Text.takeDigits_length limit input, ?_⟩
  induction limit generalizing input with
  | zero => exact .inl rfl
  | succ limit ih =>
      cases input with
      | nil => exact .inr (by simp [Text.takeDigits, Text.Stops])
      | cons character others =>
          rw [Text.takeDigits]
          split
          · rw [List.length_cons, Nat.add_right_cancel_iff]
            exact ih others
          · rename_i notDigit
            refine .inr fun first head => ?_
            obtain rfl := Option.some.inj head
            simpa using notDigit

/-- A run of digits is taken as a whole. -/
theorem DigitRun.takeDigits_eq {limit : Nat} {digits rest : List Char}
    (run : DigitRun limit digits rest) :
    Text.takeDigits limit (digits ++ rest) = (digits, rest) := by
  induction digits generalizing limit with
  | nil =>
      cases limit with
      | zero => rfl
      | succ limit =>
          have stops := run.ends.resolve_left (by simp)
          cases rest with
          | nil => rfl
          | cons first others => simp [Text.takeDigits, stops first rfl]
  | cons digit others ih =>
      obtain ⟨isDigit, areDigits⟩ := List.forall_mem_cons.mp run.digit
      have short := run.short
      rw [List.length_cons] at short
      obtain ⟨limit, rfl⟩ : ∃ less, limit = less + 1 := ⟨limit - 1, by omega⟩
      have later : DigitRun limit others rest := by
        refine ⟨areDigits, by omega, ?_⟩
        rcases run.ends with full | stops
        · exact .inl (by simpa using full)
        · exact .inr stops
      rw [List.cons_append, Text.takeDigits, if_pos isDigit, ih later]

/-- The letter of a roll ends every run of digits before it. -/
theorem stops_letter (later : List Char) : Text.Stops Char.isDigit ('d' :: later) := by
  intro character head
  obtain rfl := Option.some.inj head
  decide

/-- A word starts where no face and then a letter follow. -/
theorem startsWord_eq_true_iff {face rest : List Char} :
    startsWord face rest = true ↔ face = [] ∧ startsWithLetter rest = true := by
  simp [startsWord]

/-- The characters of a roll are found exactly where they stand. -/
theorem rollToken_eq_some_iff {input counter face rest : List Char} :
    rollToken input = some ((counter, face), rest) ↔
      input = counter ++ 'd' :: (face ++ rest) ∧ DigitRun 3 counter ('d' :: (face ++ rest)) ∧
        DigitRun 4 face rest := by
  constructor
  · intro found
    obtain ⟨whole, counterDigits, counterShort, faceDigits, faceShort⟩ := rollToken_split found
    refine ⟨by simpa using whole, ⟨counterDigits, counterShort, .inr (stops_letter _)⟩, ?_⟩
    unfold rollToken at found
    dsimp only at found
    split at found
    · rename_i later same
      have run := takeDigits_run 4 later
      simp only [Option.some.injEq, Prod.mk.injEq] at found
      obtain ⟨⟨-, rfl⟩, rfl⟩ := found
      exact run
    · exact absurd found (by simp)
  · rintro ⟨rfl, counterRun, faceRun⟩
    simp only [rollToken, counterRun.takeDigits_eq, faceRun.takeDigits_eq]

/-- A roll is read exactly where it stands. -/
theorem roll_eq_some_iff {input rest : List Char} {value : WrittenExpr} :
    roll input = some (value, rest) ↔
      ∃ counter face, RollAt input counter face rest ∧ rollOf counter face = value := by
  constructor
  · intro found
    unfold roll at found
    split at found
    · exact absurd found (by simp)
    · rename_i counter face later isToken
      obtain ⟨whole, counterRun, faceRun⟩ := rollToken_eq_some_iff.mp isToken
      split at found
      · exact absurd found (by simp)
      · rename_i notWord
        simp only [Option.some.injEq, Prod.mk.injEq] at found
        obtain ⟨same, rfl⟩ := found
        exact ⟨counter, face, ⟨whole, counterRun, faceRun,
          fun word => notWord (startsWord_eq_true_iff.mpr word)⟩, same⟩
  · rintro ⟨counter, face, isRoll, rfl⟩
    have isToken := rollToken_eq_some_iff.mpr ⟨isRoll.whole, isRoll.counterRun, isRoll.faceRun⟩
    rw [roll, isToken]
    exact if_neg fun word => isRoll.notWord (startsWord_eq_true_iff.mp word)

/-- A number is read exactly where it stands. -/
theorem num_eq_some_iff {input rest : List Char} {value : WrittenExpr} :
    num input = some (value, rest) ↔
      ∃ digits, NumAt input digits rest ∧
        (.num (Int64.ofNat (Text.digitsValue digits)) : WrittenExpr) = value := by
  constructor
  · intro found
    unfold num at found
    dsimp only at found
    split at found
    · exact absurd found (by simp)
    · rename_i filled
      simp only [Option.some.injEq, Prod.mk.injEq] at found
      obtain ⟨same, rfl⟩ := found
      exact ⟨_, ⟨(Text.takeDigits_append 5 input).symm, by simpa using filled,
        takeDigits_run 5 input⟩, same⟩
  · rintro ⟨digits, isNum, rfl⟩
    rw [num, isNum.whole, isNum.run.takeDigits_eq]
    simp [isNum.filled]

/-- A leaf is what the two readers find. -/
theorem leaf_iff {input rest : List Char} {value : WrittenExpr} :
    Leaf input value rest ↔ (roll input).or (num input) = some (value, rest) := by
  rw [Option.or_eq_some_iff, Option.eq_none_iff_forall_ne_some]
  constructor
  · intro isLeaf
    cases isLeaf with
    | roll isRoll => exact .inl (roll_eq_some_iff.mpr ⟨_, _, isRoll, rfl⟩)
    | num noRoll isNum =>
        refine .inr ⟨fun other found => ?_, num_eq_some_iff.mpr ⟨_, isNum, rfl⟩⟩
        obtain ⟨counter, face, isRoll, -⟩ := roll_eq_some_iff.mp found
        exact noRoll counter face other.2 isRoll
  · rintro (isRoll | ⟨noRoll, isNum⟩)
    · obtain ⟨counter, face, stands, rfl⟩ := roll_eq_some_iff.mp isRoll
      exact .roll stands
    · obtain ⟨digits, stands, rfl⟩ := num_eq_some_iff.mp isNum
      refine .num (fun counter face other isRoll => ?_) stands
      exact noRoll _ (roll_eq_some_iff.mpr ⟨counter, face, isRoll, rfl⟩)

/-- A leaf starts with a digit or with a `d`. -/
theorem Leaf.head {input rest : List Char} {value : WrittenExpr} (isLeaf : Leaf input value rest) :
    ∃ first others, input = first :: others ∧ (first.isDigit = true ∨ first = 'd') := by
  have fromDigits {digits later : List Char}
      (digit : ∀ character ∈ digits, character.isDigit = true) (filled : digits ≠ []) :
      ∃ first others, digits ++ later = first :: others ∧
        (first.isDigit = true ∨ first = 'd') := by
    obtain ⟨first, others, rfl⟩ := List.exists_cons_of_ne_nil filled
    exact ⟨first, others ++ later, rfl, .inl (digit first List.mem_cons_self)⟩
  cases isLeaf with
  | @roll counter face _ isRoll =>
      rw [isRoll.whole]
      by_cases empty : counter = []
      · exact ⟨'d', face ++ rest, by rw [empty]; rfl, .inr rfl⟩
      · exact fromDigits isRoll.counterRun.digit empty
  | num noRoll isNum =>
      rw [isNum.whole]
      exact fromDigits isNum.run.digit isNum.filled

/-- No leaf starts with a bracket. -/
theorem not_leaf_of_opening {opening closing : Char} (closes : closerOf opening = some closing)
    (content : List Char) (value : WrittenExpr) (rest : List Char) :
    ¬ Leaf (opening :: content) value rest := by
  intro isLeaf
  obtain ⟨first, others, same, dice⟩ := isLeaf.head
  obtain ⟨rfl, -⟩ := List.cons.injEq .. ▸ same
  rcases opening_cases closes with rfl | rfl | rfl <;> exact absurd dice (by decide)

/-- A leaf stands at the front, or a bracket, or no atom. -/
theorem atom_cases (input : List Char) :
    (∃ value rest, Leaf input value rest) ∨
    (∃ opening closing content, input = opening :: content ∧ closerOf opening = some closing) ∨
    ((∀ value rest, ¬ Leaf input value rest) ∧
      ∀ opening content, input = opening :: content → closerOf opening = none) := by
  by_cases isLeaf : ∃ value rest, Leaf input value rest
  · exact .inl isLeaf
  · have noLeaf (value : WrittenExpr) (rest : List Char) : ¬ Leaf input value rest :=
      fun found => isLeaf ⟨value, rest, found⟩
    cases input with
    | nil => exact .inr (.inr ⟨noLeaf, nofun⟩)
    | cons opening content =>
        cases closes : closerOf opening with
        | some closing => exact .inr (.inl ⟨opening, closing, content, rfl, closes⟩)
        | none =>
            refine .inr (.inr ⟨noLeaf, fun first others same => ?_⟩)
            obtain ⟨rfl, rfl⟩ := List.cons.injEq .. ▸ same
            exact closes

/-- An operator is read exactly where it stands. -/
theorem infixed_eq_some_iff {level : Level} {input later : List Char} {operator : Operator} :
    infixed level.operator? input = some (operator, later) ↔
      OperatorAt level input operator later := by
  unfold infixed OperatorAt
  cases skipSpace input with
  | nil => simp
  | cons symbol after =>
      simp only [Option.map_eq_some_iff, Prod.mk.injEq, List.cons.injEq]
      constructor
      · rintro ⟨_, reads, rfl, rfl⟩
        exact ⟨symbol, after, ⟨rfl, rfl⟩, reads, rfl⟩
      · rintro ⟨_, _, ⟨rfl, rfl⟩, reads, rfl⟩
        exact ⟨operator, reads, rfl, rfl⟩

/-- At most one operator of a level stands at the front. -/
theorem OperatorAt.unique {level : Level} {input later other : List Char}
    {operator second : Operator} (isFirst : OperatorAt level input operator later)
    (isSecond : OperatorAt level input second other) : operator = second ∧ later = other := by
  have same := (infixed_eq_some_iff.mpr isFirst).symm.trans (infixed_eq_some_iff.mpr isSecond)
  exact Prod.mk.injEq .. ▸ Option.some.inj same

/-- The level below is the one there is. -/
theorem Level.Below.unique {first second high : Level} (isFirst : first.Below high)
    (isSecond : second.Below high) : first = second := by
  cases isFirst <;> cases isSecond <;> rfl

/-- A bracket is read through its content. -/
theorem Reads.of_opening {opening closing : Char} {content : List Char}
    {result : Option (WrittenExpr × List Char)} (closes : closerOf opening = some closing)
    (reads : Reads .atom (opening :: content) result) :
    ∃ inner, Reads .sum (skipSpace content) inner ∧ result = closed closing inner := by
  cases reads with
  | leaf isLeaf => exact absurd isLeaf (not_leaf_of_opening closes _ _ _)
  | @group _ other _ inner alsoCloses reads =>
      obtain rfl := Option.some.inj (closes.symm.trans alsoCloses)
      exact ⟨inner, reads, rfl⟩
  | noAtom _ noBracket => exact absurd (noBracket opening content rfl) (by simp [closes])
  | missing below _ => nomatch below
  | single below _ _ => nomatch below
  | chained below _ _ _ => nomatch below

/-- A chain is read through its first operand and what follows the operator behind it. -/
theorem Reads.chain_cases {low high : Level} {input : List Char}
    {result : Option (WrittenExpr × List Char)} (below : low.Below high)
    (reads : Reads high input result) :
    (Reads low input none ∧ result = none) ∨
    (∃ value rest, Reads low input (some (value, rest)) ∧
      (∀ operator later, ¬ OperatorAt high rest operator later) ∧ result = some (value, rest)) ∨
    ∃ left middle operator later others, Reads low input (some (left, middle)) ∧
      OperatorAt high middle operator later ∧ Reads high later others ∧
      result = some (joined operator left middle others) := by
  cases reads with
  | leaf _ => nomatch below
  | group _ _ => nomatch below
  | noAtom _ _ => nomatch below
  | missing alsoBelow first =>
      obtain rfl := below.unique alsoBelow
      exact .inl ⟨first, rfl⟩
  | single alsoBelow first noOperator =>
      obtain rfl := below.unique alsoBelow
      exact .inr (.inl ⟨_, _, first, noOperator, rfl⟩)
  | chained alsoBelow first isOperator reads =>
      obtain rfl := below.unique alsoBelow
      exact .inr (.inr ⟨_, _, _, _, _, first, isOperator, reads, rfl⟩)

/-- Each text has one result at each level. -/
theorem Reads.unique {level : Level} {input : List Char}
    {result other : Option (WrittenExpr × List Char)} (first : Reads level input result)
    (second : Reads level input other) : result = other := by
  induction first generalizing other with
  | leaf isLeaf =>
      cases second with
      | leaf isOther => exact (leaf_iff.mp isLeaf).symm.trans (leaf_iff.mp isOther)
      | group closes _ => exact absurd isLeaf (not_leaf_of_opening closes _ _ _)
      | noAtom noLeaf _ => exact absurd isLeaf (noLeaf _ _)
      | missing below _ => nomatch below
      | single below _ _ => nomatch below
      | chained below _ _ _ => nomatch below
  | group closes reads ih =>
      obtain ⟨inner, alsoReads, rfl⟩ := second.of_opening closes
      rw [ih alsoReads]
  | noAtom noLeaf noBracket =>
      cases second with
      | leaf isLeaf => exact absurd isLeaf (noLeaf _ _)
      | group closes _ => exact absurd (noBracket _ _ rfl) (by simp [closes])
      | noAtom _ _ => rfl
      | missing below _ => nomatch below
      | single below _ _ => nomatch below
      | chained below _ _ _ => nomatch below
  | missing below first ih =>
      rcases second.chain_cases below with ⟨-, rfl⟩ | ⟨_, _, alsoFirst, -⟩ |
        ⟨_, _, _, _, _, alsoFirst, -⟩
      · rfl
      · exact absurd (ih alsoFirst) (by simp)
      · exact absurd (ih alsoFirst) (by simp)
  | single below first noOperator ih =>
      rcases second.chain_cases below with ⟨alsoFirst, -⟩ | ⟨_, _, alsoFirst, -, rfl⟩ |
        ⟨_, _, _, _, _, alsoFirst, isOperator, -⟩
      · exact absurd (ih alsoFirst) (by simp)
      · exact ih alsoFirst
      · obtain ⟨-, rfl⟩ := Prod.mk.injEq .. ▸ Option.some.inj (ih alsoFirst)
        exact absurd isOperator (noOperator _ _)
  | chained below first isOperator reads firstUnique ih =>
      rcases second.chain_cases below with ⟨alsoFirst, -⟩ | ⟨_, _, alsoFirst, noOperator, -⟩ |
        ⟨_, _, _, _, _, alsoFirst, alsoOperator, alsoReads, rfl⟩
      · exact absurd (firstUnique alsoFirst) (by simp)
      · obtain ⟨-, rfl⟩ := Prod.mk.injEq .. ▸ Option.some.inj (firstUnique alsoFirst)
        exact absurd isOperator (noOperator _ _)
      · obtain ⟨rfl, rfl⟩ := Prod.mk.injEq .. ▸ Option.some.inj (firstUnique alsoFirst)
        obtain ⟨rfl, rfl⟩ := isOperator.unique alsoOperator
        rw [ih alsoReads]

/-- What is read from a text is one value, up to one place. -/
theorem Reads.some_unique {level : Level} {input rest later : List Char}
    {value other : WrittenExpr} (first : Reads level input (some (value, rest)))
    (second : Reads level input (some (other, later))) : value = other ∧ rest = later :=
  Prod.mk.injEq .. ▸ Option.some.inj (first.unique second)

end DiceChat.Grammar
