import DiceChat.Proofs.Message.Pieces
import DiceChat.Proofs.Text.Conversion

/-!
This file bounds the leaves of parsed expressions. A number has at most five digits, a counter three
and a face four, so their values are bounded, and the conversions of these digits to machine
integers never reject them. Rolls and numbers are therefore read as if no conversion could fail.
-/

namespace DiceChat

/-- The leaves of an expression fit if its numbers and counters have values that the grammar has
digits for and each of its faces is allowed. -/
def Formula.LeavesFit {Face : Type} (allowed : Face → Prop) : Formula Face → Prop
  | .num value => 0 ≤ value.toInt ∧ value.toInt ≤ 99999
  | .roll counter face => counter.toNat ≤ 999 ∧ allowed face
  | .binary _ left right => left.LeavesFit allowed ∧ right.LeavesFit allowed

/-- A change of faces keeps the numbers and counters. -/
theorem Formula.LeavesFit.mapFace {First Second : Type} {allowed : First → Prop}
    {other : Second → Prop} {change : First → Second}
    (kept : ∀ face, allowed face → other (change face)) {formula : Formula First}
    (fit : formula.LeavesFit allowed) : (formula.mapFace change).LeavesFit other := by
  induction formula with
  | num value => exact fit
  | roll counter face => exact ⟨fit.1, kept face fit.2⟩
  | binary operator left right leftFits rightFits => exact ⟨leftFits fit.1, rightFits fit.2⟩

namespace Grammar

open Text

/-- A face that is written has at most four digits. -/
def WrittenFace (face : Option UInt32) : Prop := ∀ sides ∈ face, sides.toNat ≤ 9999

/-- A roll has a counter of at most three digits and a face of at most four. -/
theorem leavesFit_rollOf {counter face : List Char}
    (counterDigits : ∀ character ∈ counter, character.isDigit = true)
    (counterShort : counter.length ≤ 3)
    (faceDigits : ∀ character ∈ face, character.isDigit = true) (faceShort : face.length ≤ 4) :
    (rollOf counter face).LeavesFit WrittenFace := by
  constructor
  · cases counter with
    | nil => decide
    | cons first others =>
        have group : DigitGroup 3 (first :: others) :=
          ⟨List.cons_ne_nil _ _, counterDigits, counterShort⟩
        have small := group.value_lt (Nat.le_refl _)
        rw [List.isEmpty_cons, if_neg Bool.false_ne_true, group.toNat_ofNat (by decide)]
        omega
  · cases face with
    | nil => exact nofun
    | cons first others =>
        have group : DigitGroup 4 (first :: others) :=
          ⟨List.cons_ne_nil _ _, faceDigits, faceShort⟩
        have small := group.value_lt (Nat.le_refl _)
        intro sides isFace
        rw [List.isEmpty_cons, if_neg Bool.false_ne_true, Option.mem_some] at isFace
        rw [← isFace, group.toNat_ofNat (by decide)]
        omega

/-- A number has at most five digits and no sign. -/
theorem leavesFit_num {digits : List Char} (group : DigitGroup 5 digits) :
    (.num (Int64.ofNat (digitsValue digits)) : WrittenExpr).LeavesFit WrittenFace := by
  have small := group.value_lt (Nat.le_refl _)
  rw [Formula.LeavesFit, group.toInt_ofNat (by decide)]
  omega

/-- The leaves of a written expression fit: each leaf has its digits in the text, and chains and
brackets add no leaves. -/
theorem Written.leavesFit {level : Level} {budget : Nat} {value : WrittenExpr} {text : List Char}
    (written : Written level budget value text) : value.LeavesFit WrittenFace := by
  induction written with
  | roll counterDigits counterShort faceDigits faceShort =>
      exact leavesFit_rollOf counterDigits counterShort faceDigits faceShort
  | num digit filled short => exact leavesFit_num ⟨filled, digit, short⟩
  | group _ _ _ _ ih => exact ih
  | single _ _ ih => exact ih
  | linked _ _ _ _ _ _ leftFits rightFits => exact ⟨leftFits, rightFits⟩

/-- This reads a roll with conversions that can reject its digits. -/
def convertedRoll (input : List Char) : Option (WrittenExpr × List Char) :=
  match rollToken input with
  | none => none
  | some ((counter, face), rest) =>
      if startsWord face rest then none
      else
        (convertOr 1 convertUInt32 counter).bind fun count =>
          (convertOr none (fun digits => (convertUInt32 digits).map some) face).map fun sides =>
            (.roll count sides, rest)

/-- This reads a number with a conversion that can reject its digits. -/
def convertedNum (input : List Char) : Option (WrittenExpr × List Char) :=
  let digits := takeDigits 5 input
  if digits.1.isEmpty then none
  else (convertInt64 digits.1).map fun value => (.num value, digits.2)

/-- The digits of a roll's parts are groups, unless a part is left out. -/
theorem digitGroup_of_rollToken {input counter face rest : List Char}
    (found : rollToken input = some ((counter, face), rest)) :
    (counter ≠ [] → DigitGroup 3 counter) ∧ (face ≠ [] → DigitGroup 4 face) := by
  obtain ⟨-, counterDigits, counterShort, faceDigits, faceShort⟩ := rollToken_split found
  exact ⟨fun filled => ⟨filled, counterDigits, counterShort⟩,
    fun filled => ⟨filled, faceDigits, faceShort⟩⟩

/-- No conversion rejects a roll. -/
theorem convertedRoll_eq_roll (input : List Char) : convertedRoll input = roll input := by
  unfold convertedRoll roll
  rcases found : rollToken input with _ | ⟨⟨counter, face⟩, rest⟩
  · rfl
  · obtain ⟨ofCounter, ofFace⟩ := digitGroup_of_rollToken found
    have count : convertOr 1 convertUInt32 counter =
        some (if counter.isEmpty then 1 else UInt32.ofNat (digitsValue counter)) := by
      cases counter with
      | nil => rfl
      | cons first others =>
          exact (ofCounter (List.cons_ne_nil _ _)).convertUInt32_eq (by decide)
    have sides : convertOr none (fun digits => (convertUInt32 digits).map some) face =
        some (if face.isEmpty then none else some (UInt32.ofNat (digitsValue face))) := by
      cases face with
      | nil => rfl
      | cons first others =>
          have converted := (ofFace (List.cons_ne_nil _ _)).convertUInt32_eq (by decide)
          exact congrArg (Option.map some) converted
    dsimp only
    rw [count, sides, Option.bind_some, Option.map_some]

/-- No conversion rejects a number. -/
theorem convertedNum_eq_num (input : List Char) : convertedNum input = num input := by
  unfold convertedNum num
  dsimp only
  split
  · rfl
  · rename_i filled
    have group : DigitGroup 5 (takeDigits 5 input).1 :=
      DigitGroup.of_takeDigits (by simpa using filled)
    rw [group.convertInt64_eq (by decide), Option.map_some]

end Grammar

open Grammar Text

/-- An expression of a message is not a bare number, and its leaves fit. A face is written, or the
settings give it. -/
theorem leavesFit_of_mem_nodes {rules : List Rule} {defaultFace : UInt32} {source : List Char}
    {node : Expr} (member : node ∈ (parseWith rules defaultFace source).nodes) :
    node.isNum = false ∧
      node.LeavesFit fun face => face.toNat ≤ 9999 ∨ face = defaultFace := by
  obtain ⟨piece, isPiece, written, marked, rfl⟩ := (mem_nodes_iff _ _ _ node).mp member
  obtain ⟨-, dice⟩ := expression_of_mem_pieces _ _ piece isPiece written marked
  have writes := (pieces_faithful _ _ piece isPiece).writes written marked
  refine ⟨(Formula.isNum_mapFace _ written).trans dice, writes.leavesFit.mapFace ?_⟩
  intro face isWritten
  cases face with
  | none => exact .inr rfl
  | some sides => exact .inl (isWritten sides rfl)

/-- An expression of a message is not a bare number and its leaves fit: numbers are at most 99999,
counters at most 999, and faces at most 9999 or as many as the settings give. Every group of digits
that a roll or a number takes is converted to exactly its value, so with conversions that can reject
their digits the same rolls and numbers are read. -/
theorem parse_leavesFit (env : Env) (source : String) :
    (∀ node ∈ (parse env source).nodes, node.isNum = false ∧
      node.LeavesFit fun face => face.toNat ≤ 9999 ∨ face = env.defaultFace) ∧
    (∀ input counter face rest, rollToken input = some ((counter, face), rest) →
      (counter ≠ [] →
        ∃ count, convertUInt32 counter = some count ∧ count.toNat = digitsValue counter) ∧
      (face ≠ [] → ∃ sides, convertUInt32 face = some sides ∧ sides.toNat = digitsValue face)) ∧
    (∀ input, (takeDigits 5 input).1 ≠ [] →
      ∃ value, convertInt64 (takeDigits 5 input).1 = some value ∧
        value.toInt = digitsValue (takeDigits 5 input).1) ∧
    convertedRoll = roll ∧ convertedNum = num := by
  refine ⟨fun node member => leavesFit_of_mem_nodes member, ?_, ?_,
    funext convertedRoll_eq_roll, funext convertedNum_eq_num⟩
  · intro input counter face rest found
    obtain ⟨ofCounter, ofFace⟩ := digitGroup_of_rollToken found
    constructor
    · intro filled
      exact ⟨_, (ofCounter filled).convertUInt32_eq (by decide),
        (ofCounter filled).toNat_ofNat (by decide)⟩
    · intro filled
      exact ⟨_, (ofFace filled).convertUInt32_eq (by decide),
        (ofFace filled).toNat_ofNat (by decide)⟩
  · intro input filled
    have group := DigitGroup.of_takeDigits filled
    exact ⟨_, group.convertInt64_eq (by decide), group.toInt_ofNat (by decide)⟩

/-- The leaves of this expression have the least and the greatest values. -/
def extremeLeaves : Expr :=
  .binary .add (.roll 0 4294967295)
    (.binary .mul (.roll 999 9999) (.binary .sub (.num 99999) (.num 0)))

/-- Every bound is reached, leading zeros are read, and a face of the settings has no bound. -/
theorem parse_leavesFit_extremeLeaves :
    extremeLeaves ∈
        (parse { defaultFace := 4294967295 } "007 000d + 999d9999*(99999 - 00000)").nodes ∧
      (extremeLeaves.isNum = false ∧
        extremeLeaves.LeavesFit fun face => face.toNat ≤ 9999 ∨ face = 4294967295) ∧
      (rollToken "009d0007x".toList = some (("009".toList, "0007".toList), ['x']) ∧
        ∃ sides, convertUInt32 "0007".toList = some sides ∧
          sides.toNat = digitsValue "0007".toList) ∧
      ∃ value, convertInt64 "99999".toList = some value ∧
        value.toInt = digitsValue "99999".toList := by
  have member : extremeLeaves ∈
      (parse { defaultFace := 4294967295 } "007 000d + 999d9999*(99999 - 00000)").nodes := by
    decide +kernel
  have isRoll : rollToken "009d0007x".toList =
      some (("009".toList, "0007".toList), ['x']) := by decide
  obtain ⟨fit, converted, number, -⟩ := parse_leavesFit { defaultFace := 4294967295 }
    "007 000d + 999d9999*(99999 - 00000)"
  exact ⟨member, fit _ member, ⟨isRoll, (converted _ _ _ _ isRoll).2 (by decide)⟩,
    number "999991".toList (by decide)⟩

end DiceChat
