import Mathlib.Data.Nat.Digits.Defs
import Mathlib.Logic.Relation
import DiceChat.Dice.Render
import DiceChat.Proofs.Dice.Overrun
import DiceChat.Text.Units

/-!
This file reads back what was printed. The operator around an expression chooses the level of the
grammar that the expression is printed at: a factor is an atom, and a summand may be a product. The
grammar finds the printed expression again in front of every text that does not continue it. Each
level of the tree costs two levels of depth, one for the parentheses and one for the right operand.
-/

namespace DiceChat

open Grammar

/-- The grammar has digits enough for all numbers and rolls of the expression. -/
def Expr.Readable : Expr → Prop
  | .num value => 0 ≤ value.toInt ∧ value.toInt ≤ 99999
  | .roll counter face => counter.toNat ≤ 999 ∧ face.toNat ≤ 9999
  | .binary _ left right => Expr.Readable left ∧ Expr.Readable right

instance Expr.decidableReadable : (expr : Expr) → Decidable (Expr.Readable expr)
  | .num value => inferInstanceAs (Decidable (0 ≤ value.toInt ∧ value.toInt ≤ 99999))
  | .roll counter face => inferInstanceAs (Decidable (counter.toNat ≤ 999 ∧ face.toNat ≤ 9999))
  | .binary _ left right =>
      have := decidableReadable left
      have := decidableReadable right
      inferInstanceAs (Decidable (Expr.Readable left ∧ Expr.Readable right))

/-- An operation is an expression of this level. -/
def Operator.level : Operator → Level
  | .add | .sub => .sum
  | .mul | .div => .product

/-- An operand of the surrounding operator is printed at this level. -/
def printedLevel : Option Operator → Level
  | some .add | some .sub => .product
  | _ => .atom

/-- An operation joins operands of the level below it. -/
theorem printedLevel_below (operator : Operator) :
    (printedLevel (some operator)).Below operator.level := by
  cases operator <;> constructor

/-- A bare operation is of the level it is printed at. -/
theorem printedLevel_of_bare {operator : Operator} {outer : Option Operator}
    (bare : operator.standsBareIn outer = true) : printedLevel outer = operator.level := by
  cases outer with
  | none => exact absurd bare (by simp [Operator.standsBareIn])
  | some outer => cases operator <;> cases outer <;> first | rfl | exact absurd bare (by decide)

namespace Grammar

/-- A text ends an expression of the level: no operator continues the expression, and neither a
digit nor a `d` continues its last leaf. -/
structure Ends (level : Level) (rest : List Char) : Prop where
  notFollowed : ¬ Followed level rest
  noDigit : Text.Stops Char.isDigit rest
  noLetter : rest.head? ≠ some 'd'

section

variable {low high level : Level} {depth : Nat} {input rest later : List Char}

/-- What ends a chain ends its last operand. -/
theorem Ends.of_below (below : low.Below high) (ends : Ends high rest) : Ends low rest :=
  ⟨fun followed => ends.notFollowed (followed.of_below below), ends.noDigit, ends.noLetter⟩

theorem ends_nil (level : Level) : Ends level [] :=
  ⟨fun ⟨_, _, skipped, _⟩ => absurd skipped (by simp [skipSpace]), nofun, by simp⟩

theorem ends_of_head {first : Char} (notFollowed : ¬ Followed level (first :: later))
    (noDigit : first.isDigit = false) (noLetter : first ≠ 'd') : Ends level (first :: later) := by
  refine ⟨notFollowed, fun character head => ?_, by simpa using noLetter⟩
  obtain rfl := Option.some.inj head
  exact noDigit

/-- A closing parenthesis ends every expression. -/
theorem ends_closing (level : Level) (later : List Char) : Ends level (')' :: later) := by
  have closes : closerOf '(' = some ')' := rfl
  exact ends_of_head (not_followed_of_closing closes rfl) (by decide) (by decide)

/-- A printed operator stands at the front. -/
theorem operatorAt_symbol (operator : Operator) (later : List Char) :
    OperatorAt operator.level (operator.symbol :: later) operator (skipSpace later) := by
  refine ⟨operator.symbol, later, ?_, ?_, rfl⟩
  · cases operator <;> rfl
  · cases operator <;> rfl

/-- A printed operator ends its left operand. -/
theorem ends_symbol (operator : Operator) (later : List Char) :
    Ends (printedLevel (some operator)) (operator.symbol :: later) := by
  have isOperator := operatorAt_symbol operator later
  apply ends_of_head
  · exact not_followed_of_operatorAt (printedLevel_below operator) isOperator
  · cases operator <;> decide
  · cases operator <;> decide

/-- Every level has the atoms below it. -/
theorem Level.atom_below (level : Level) : Relation.ReflTransGen Level.Below .atom level := by
  cases level with
  | atom => exact .refl
  | product => exact .single .product
  | sum => exact .tail (.single .product) .sum

/-- Every level is below the sums. -/
theorem Level.below_sum (level : Level) : Relation.ReflTransGen Level.Below level .sum := by
  cases level with
  | atom => exact .tail (.single .product) .sum
  | product => exact .single .sum
  | sum => exact .refl

/-- What is read at a level is read at every level above it that nothing continues. -/
theorem ReadsWithin.climb {value : WrittenExpr} (fits : ReadsWithin low depth input value rest)
    (above : Relation.ReflTransGen Level.Below low high) (alone : ¬ Followed high rest) :
    ReadsWithin high depth input value rest := by
  induction above with
  | refl => exact fits
  | tail _ below ih =>
      have operand := ih fun followed => alone (followed.of_below below)
      exact .single below operand fun _ _ found => alone (followed_of_operatorAt found)

/-- A number with few enough digits is written as a run of them. -/
theorem digitRun_natural {limit value : Nat} (positive : 0 < limit) (small : value < 10 ^ limit)
    (ends : Text.Stops Char.isDigit rest) : DigitRun limit (Text.natural value) rest :=
  ⟨fun _ => Text.isDigit_of_mem_natural, Nat.toDigits_length 10 value limit positive small,
    .inr ends⟩

theorem natural_ne_nil (value : Nat) : Text.natural value ≠ [] := Nat.toDigits_ne_nil

/-- A run of digits that ends there is read as a number, since no roll can start with it. -/
theorem leaf_digits {digits : List Char} (run : DigitRun 5 digits rest) (filled : digits ≠ [])
    (ends : Ends level rest) :
    Leaf (digits ++ rest) (.num (Int64.ofNat (Text.digitsValue digits))) rest := by
  refine .num (fun counter face after isRoll => ?_) ⟨rfl, filled, run⟩
  have whole := isRoll.whole
  have same : digits = counter := by
    rw [← Text.takeWhile_of_stops run.digit ends.noDigit, whole,
      Text.takeWhile_of_stops isRoll.counterRun.digit (stops_letter _)]
  rw [same] at whole
  apply ends.noLetter
  rw [List.append_cancel_left whole]
  rfl

/-- A number that ends at its last digit is read back. -/
theorem leaf_natural {value : Nat} (small : value < 10 ^ 5) (ends : Ends level rest) :
    Leaf (Text.natural value ++ rest) (.num (Int64.ofNat value)) rest := by
  have run := digitRun_natural (by decide) small ends.noDigit
  have isNum := leaf_digits run (natural_ne_nil value) ends
  rwa [Text.digitsValue_natural] at isNum

/-- A roll with both its numbers is read back. -/
theorem leaf_roll {counter face : UInt32} (few : counter.toNat ≤ 999) (small : face.toNat ≤ 9999)
    (ends : Ends level rest) :
    Leaf (Text.natural counter.toNat ++ 'd' :: (Text.natural face.toNat ++ rest))
      (.roll counter (some face)) rest := by
  have isRoll : RollAt (Text.natural counter.toNat ++ 'd' :: (Text.natural face.toNat ++ rest))
      (Text.natural counter.toNat) (Text.natural face.toNat) rest := by
    refine ⟨rfl, digitRun_natural (by decide) (by omega) (stops_letter _),
      digitRun_natural (by decide) (by omega) ends.noDigit, ?_⟩
    exact fun word => natural_ne_nil _ word.1
  have value : rollOf (Text.natural counter.toNat) (Text.natural face.toNat) =
      .roll counter (some face) := by
    simp [rollOf, natural_ne_nil]
  exact value ▸ Leaf.roll isRoll

/-- An operation is read where its operands are, the right one a level deeper. -/
theorem readsWithin_operation {operator : Operator} {left right : WrittenExpr}
    {leftText rightText : List Char} (room : depth + 1 < maxExprDepth)
    (solid : skipSpace (rightText ++ rest) = rightText ++ rest)
    (readsLeft : ReadsWithin (printedLevel (some operator)) depth
      (leftText ++ operator.symbol :: (rightText ++ rest)) left
      (operator.symbol :: (rightText ++ rest)))
    (readsRight : ReadsWithin (printedLevel (some operator)) (depth + 1) (rightText ++ rest) right
      rest)
    (alone : ¬ Followed operator.level rest) :
    ReadsWithin operator.level depth (leftText ++ operator.symbol :: rightText ++ rest)
      (.binary operator left right) rest := by
  have below := printedLevel_below operator
  have isOperator := operatorAt_symbol operator (rightText ++ rest)
  rw [solid] at isOperator
  rw [List.append_assoc, List.cons_append]
  exact .linked below readsLeft isOperator room (readsRight.climb (.single below) alone)

/-- Parentheses are read around a content that is read a level deeper. -/
theorem readsWithin_parentheses {content : List Char} {value : WrittenExpr}
    (room : depth + 1 ≤ maxExprDepth)
    (solid : skipSpace (content ++ ')' :: rest) = content ++ ')' :: rest)
    (inner : ReadsWithin level (depth + 1) (content ++ ')' :: rest) value (')' :: rest)) :
    ReadsWithin .atom depth ('(' :: content ++ [')'] ++ rest) value rest := by
  have whole := inner.climb (Level.below_sum level) (ends_closing .sum rest).notFollowed
  rw [List.append_assoc, List.cons_append]
  exact .group rfl room (solid.symm ▸ whole) rfl

end

end Grammar

/-- A printed expression starts with a digit, a minus sign or a parenthesis. -/
theorem Expr.renderIn_head (outer : Option Operator) (expr : Expr) :
    ∃ first others, Expr.renderIn outer expr = first :: others ∧
      (first.isDigit = true ∨ first = '-' ∨ first = '(') := by
  have natural (value : Nat) : ∃ first others, Text.natural value = first :: others ∧
      first.isDigit = true := by
    obtain ⟨first, others, same⟩ := List.exists_cons_of_ne_nil (natural_ne_nil value)
    exact ⟨first, others, same, Text.isDigit_of_mem_natural (same ▸ List.mem_cons_self)⟩
  induction expr generalizing outer with
  | num value =>
      rw [renderIn, Text.integer]
      split
      · exact ⟨'-', _, rfl, .inr (.inl rfl)⟩
      · obtain ⟨first, others, same, digit⟩ := natural value.toInt.natAbs
        exact ⟨first, others, same, .inl digit⟩
  | roll counter face =>
      obtain ⟨first, others, same, digit⟩ := natural counter.toNat
      exact ⟨first, _, by rw [renderIn, same, List.cons_append], .inl digit⟩
  | binary operator left right leftHead =>
      rw [renderIn, parenthesise]
      split
      · obtain ⟨first, others, same, opens⟩ := leftHead (some operator)
        exact ⟨first, _, by rw [same, List.cons_append], opens⟩
      · exact ⟨'(', _, rfl, .inr (.inr rfl)⟩

/-- No space stands before a printed expression. -/
theorem Expr.skipSpace_renderIn (outer : Option Operator) (expr : Expr) (rest : List Char) :
    skipSpace (Expr.renderIn outer expr ++ rest) = Expr.renderIn outer expr ++ rest := by
  obtain ⟨first, others, same, opens⟩ := Expr.renderIn_head outer expr
  have solid : Text.isChatSpace first = false := by
    rcases opens with digit | rfl | rfl
    · by_contra space
      have notDigit := Text.isDigit_of_isChatSpace (Bool.not_eq_false _ ▸ space)
      exact absurd digit (by simp [notDigit])
    · decide
    · decide
  rw [same, List.cons_append, skipSpace, List.dropWhile_cons_of_neg (by simp [solid])]

/-- A readable number is printed as its digits. -/
theorem leaf_integer {level : Level} {value : Int64} {rest : List Char}
    (positive : 0 ≤ value.toInt) (small : value.toInt ≤ 99999) (ends : Ends level rest) :
    Leaf (Text.integer value.toInt ++ rest) (.num value) rest := by
  have digits : Text.integer value.toInt = Text.natural value.toInt.natAbs :=
    if_neg (Int.not_lt.mpr positive)
  have same : Int64.ofNat value.toInt.natAbs = value := by
    rw [← Int64.ofInt_eq_ofNat, Int.natAbs_of_nonneg positive, Int64.ofInt_toInt]
  have short : value.toInt.natAbs < 10 ^ 5 := by omega
  have isLeaf := leaf_natural short ends
  rwa [same, ← digits] at isLeaf

/-- A printed expression is read back in front of every text that ends it. -/
theorem Expr.readsWithin_renderIn {expr : Expr} {outer : Option Operator} {depth : Nat}
    {rest : List Char} (readable : Expr.Readable expr)
    (room : depth + 2 * expr.depth < maxExprDepth) (ends : Ends (printedLevel outer) rest) :
    ReadsWithin (printedLevel outer) depth (Expr.renderIn outer expr ++ rest)
      (expr.mapFace some) rest := by
  induction expr generalizing outer depth rest with
  | num value =>
      have isLeaf := leaf_integer readable.1 readable.2 ends
      exact (ReadsWithin.leaf isLeaf).climb (Level.atom_below _) ends.notFollowed
  | roll counter face =>
      have isLeaf := leaf_roll readable.1 readable.2 ends
      rw [renderIn, List.append_assoc, List.cons_append]
      exact (ReadsWithin.leaf isLeaf).climb (Level.atom_below _) ends.notFollowed
  | binary operator left right leftReads rightReads =>
      rw [Formula.depth] at room
      have solid := Expr.skipSpace_renderIn (some operator)
      -- The operands and the symbol are read alike with parentheses and without them.
      have operation {inner : Nat} {later : List Char}
          (inside : inner + 1 + 2 * max left.depth right.depth < maxExprDepth)
          (endsHere : Ends operator.level later) :
          ReadsWithin operator.level inner
            (Expr.renderIn (some operator) left ++
              operator.symbol :: Expr.renderIn (some operator) right ++ later)
            (.binary operator (left.mapFace some) (right.mapFace some)) later := by
        have endsRight := endsHere.of_below (printedLevel_below operator)
        refine readsWithin_operation (by omega) (solid right later)
          (leftReads readable.1 ?_ (ends_symbol operator _)) (rightReads readable.2 ?_ endsRight)
          endsHere.notFollowed
        · omega
        · omega
      rw [renderIn, parenthesise]
      split
      · rename_i bare
        -- Only a product inside a sum is bare, and it is read at the level of its operator.
        rw [printedLevel_of_bare bare] at ends ⊢
        exact operation (by omega) ends
      · have startsSolid := solid left (operator.symbol :: Expr.renderIn (some operator) right ++
          ')' :: rest)
        rw [← List.append_assoc] at startsSolid
        -- One level goes to the parentheses and one to the right operand.
        have inside : depth + 1 + 1 + 2 * max left.depth right.depth < maxExprDepth := by omega
        have whole := readsWithin_parentheses (by omega) startsSolid
          (operation inside (ends_closing _ rest))
        exact whole.climb (Level.atom_below _) ends.notFollowed

/-- Filling in for missing faces keeps an expression that has all of them. -/
theorem Expr.fill_mapFace_some (face : UInt32) (expr : Expr) :
    WrittenExpr.fill face (expr.mapFace some) = expr := by
  induction expr with
  | num => rfl
  | roll => rfl
  | binary operator left right leftSame rightSame =>
      rw [WrittenExpr.fill] at leftSame rightSame ⊢
      rw [Formula.mapFace, Formula.mapFace, leftSame, rightSame]

/-- A printed expression is no longer than a full tree of its depth with the longest leaves. -/
theorem Expr.length_renderIn {expr : Expr} (outer : Option Operator)
    (readable : Expr.Readable expr) :
    (Expr.renderIn outer expr).length + 3 ≤ 11 * 2 ^ expr.depth := by
  have digits (limit value : Nat) (positive : 0 < limit) (small : value < 10 ^ limit) :
      (Text.natural value).length ≤ limit := Nat.toDigits_length 10 value limit positive small
  induction expr generalizing outer with
  | num value =>
      obtain ⟨positive, small⟩ := readable
      have short := digits 5 value.toInt.natAbs (by decide) (by omega)
      rw [renderIn, Text.integer, if_neg (Int.not_lt.mpr positive), Formula.depth]
      omega
  | roll counter face =>
      have counterShort := digits 3 counter.toNat (by decide) (by have := readable.1; omega)
      have faceShort := digits 4 face.toNat (by decide) (by have := readable.2; omega)
      rw [renderIn, List.length_append, List.length_cons, Formula.depth]
      omega
  | binary operator left right leftShort rightShort =>
      have inLeft := leftShort (some operator) readable.1
      have inRight := rightShort (some operator) readable.2
      have leftGrows : 2 ^ left.depth ≤ 2 ^ max left.depth right.depth :=
        Nat.pow_le_pow_right (by decide) (Nat.le_max_left _ _)
      have rightGrows : 2 ^ right.depth ≤ 2 ^ max left.depth right.depth :=
        Nat.pow_le_pow_right (by decide) (Nat.le_max_right _ _)
      have longest : (Expr.renderIn outer (.binary operator left right)).length ≤
          (Expr.renderIn (some operator) left).length +
            (Expr.renderIn (some operator) right).length + 3 := by
        rw [renderIn, parenthesise]
        split
        · rw [List.length_append, List.length_cons]
          omega
        · simp only [List.length_append, List.length_cons, List.length_nil]
          omega
      rw [Formula.depth, Nat.pow_add, Nat.pow_one]
      omega

/-- A text has at most two code units for each character. -/
theorem Text.units_le_length (text : List Char) : Text.units text ≤ 2 * text.length := by
  induction text with
  | nil => exact Nat.le_refl 0
  | cons character rest ih =>
      have size : Text.unitSize character ≤ 2 := by
        unfold Text.unitSize
        split <;> decide
      rw [Text.units_cons, List.length_cons]
      omega

/-- The length of a printed expression fits into a word. -/
theorem Expr.units_render {expr : Expr} (readable : Expr.Readable expr)
    (shallow : expr.depth ≤ 31) : Text.units (Expr.render expr).toList < UInt64.size := by
  have units := Text.units_le_length (Expr.renderIn none expr)
  have length := Expr.length_renderIn none readable
  have grows : 2 ^ expr.depth ≤ 2 ^ 31 := Nat.pow_le_pow_right (by decide) shallow
  rw [Expr.render, String.toList_ofList, UInt64.size]
  omega

end DiceChat
