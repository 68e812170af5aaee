import DiceChat.Message.Env
import DiceChat.Proofs.Dice.Recursion

/-!
This file relates the reader of expressions to the grammar without a bound. Depth is charged along
the rules of the grammar: an operand behind an operator sits one level below what stands before it,
and the content of a bracket one level below its surroundings. The reader finds a text too deep
exactly if the grammar tries something on it past the limits, and else it gives the result of the
grammar. What is tried and what is read are not the same: behind the expression it reads, the
grammar may try the operand of one more operator in vain.
-/

namespace DiceChat

/-- A reading that is not too deep finds a value or none. -/
def Reading.outcome {Value : Type} : Reading Value → Option (Value × List Char)
  | .tooDeep => none
  | .failed => none
  | .read value rest => some (value, rest)

namespace Grammar

/-- The grammar reads a value from a depth on, with every operand behind an operator below the
limit and the content of every bracket within it. -/
inductive ReadsWithin : Level → Nat → List Char → WrittenExpr → List Char → Prop where
  | leaf {depth : Nat} {input rest : List Char} {value : WrittenExpr}
      (isLeaf : Leaf input value rest) : ReadsWithin .atom depth input value rest
  | group {depth : Nat} {opening closing : Char} {content middle rest : List Char}
      {value : WrittenExpr} (closes : closerOf opening = some closing)
      (room : depth + 1 ≤ maxExprDepth)
      (inner : ReadsWithin .sum (depth + 1) (skipSpace content) value middle)
      (isClosed : skipSpace middle = closing :: rest) :
      ReadsWithin .atom depth (opening :: content) value rest
  | single {low high : Level} {depth : Nat} {input rest : List Char} {value : WrittenExpr}
      (below : low.Below high) (first : ReadsWithin low depth input value rest)
      (noOperator : ∀ operator later, ¬ OperatorAt high rest operator later) :
      ReadsWithin high depth input value rest
  | dangling {low high : Level} {depth : Nat} {input rest later : List Char} {value : WrittenExpr}
      {operator : Operator} (below : low.Below high)
      (first : ReadsWithin low depth input value rest)
      (isOperator : OperatorAt high rest operator later) (missing : Reads high later none) :
      ReadsWithin high depth input value rest
  | linked {low high : Level} {depth : Nat} {input middle later rest : List Char}
      {left right : WrittenExpr} {operator : Operator} (below : low.Below high)
      (first : ReadsWithin low depth input left middle)
      (isOperator : OperatorAt high middle operator later) (room : depth + 1 < maxExprDepth)
      (others : ReadsWithin high (depth + 1) later right rest) :
      ReadsWithin high depth input (.binary operator left right) rest

/-- The grammar tries something past the limits: it looks for a bracket at the last level, or for
an operand where none may sit. -/
inductive Overruns : Level → Nat → List Char → Prop where
  | bracket {depth : Nat} {input : List Char} (noLeaf : ∀ value rest, ¬ Leaf input value rest)
      (deep : maxExprDepth ≤ depth) : Overruns .atom depth input
  | content {depth : Nat} {opening closing : Char} {content : List Char}
      (closes : closerOf opening = some closing)
      (inner : Overruns .sum (depth + 1) (skipSpace content)) :
      Overruns .atom depth (opening :: content)
  | first {low high : Level} {depth : Nat} {input : List Char} (below : low.Below high)
      (first : Overruns low depth input) : Overruns high depth input
  | link {low high : Level} {depth : Nat} {input middle later : List Char} {left : WrittenExpr}
      {operator : Operator} (below : low.Below high) (first : Reads low input (some (left, middle)))
      (isOperator : OperatorAt high middle operator later) (deep : maxExprDepth ≤ depth + 1) :
      Overruns high depth input
  | others {low high : Level} {depth : Nat} {input middle later : List Char} {left : WrittenExpr}
      {operator : Operator} (below : low.Below high) (first : Reads low input (some (left, middle)))
      (isOperator : OperatorAt high middle operator later)
      (others : Overruns high (depth + 1) later) : Overruns high depth input

/-- What is read within the limits is read. -/
theorem ReadsWithin.reads {level : Level} {depth : Nat} {input rest : List Char}
    {value : WrittenExpr} (fits : ReadsWithin level depth input value rest) :
    Reads level input (some (value, rest)) := by
  induction fits with
  | leaf isLeaf => exact .leaf isLeaf
  | @group _ _ closing _ middle rest value closes room inner isClosed ih =>
      have same : closed closing (some (value, middle)) = some (value, rest) :=
        closed_eq_some_iff.mpr ⟨middle, rfl, isClosed⟩
      exact same ▸ Reads.group closes ih
  | single below first noOperator ih => exact .single below ih noOperator
  | dangling below first isOperator missing ih => exact .chained below ih isOperator missing
  | linked below first isOperator room others firstReads othersRead =>
      exact .chained below firstReads isOperator othersRead

/-- A reading tells the truth about the grammar: it is too deep where the grammar overruns, it fails
where nothing is read, and it finds what is read within the limits. -/
def Meets (level : Level) (depth : Nat) (input : List Char) : Reading WrittenExpr → Prop
  | .tooDeep => Overruns level depth input
  | .failed => Reads level input none
  | .read value rest => ReadsWithin level depth input value rest

section

variable {low high : Level} {depth : Nat} {input content : List Char} {opening closing : Char}

/-- A bracket around content that is read truly is read truly. -/
theorem meets_closeGroup (closes : closerOf opening = some closing) (room : depth < maxExprDepth)
    {inner : Reading WrittenExpr} (meets : Meets .sum (depth + 1) (skipSpace content) inner) :
    Meets .atom depth (opening :: content) (closeGroup closing inner) := by
  cases inner with
  | tooDeep => exact .content closes meets
  | failed => exact .group closes meets
  | read value middle =>
      have inside := Reads.group closes (ReadsWithin.reads meets)
      by_cases isClosed : ∃ rest, skipSpace middle = closing :: rest
      · obtain ⟨rest, isClosed⟩ := isClosed
        have found : closeGroup closing (.read value middle) = .read value rest := by
          simp [closeGroup, isClosed]
        rw [found]
        exact .group closes room meets isClosed
      · have unclosed (rest : List Char) : skipSpace middle ≠ closing :: rest :=
          fun same => isClosed ⟨rest, same⟩
        rw [closed_eq_none unclosed] at inside
        have failed : closeGroup closing (.read value middle) = .failed := by
          rw [closeGroup]
          split
          · rfl
          · rename_i character rest skipped
            exact if_neg fun same : character = closing => unclosed rest (same ▸ skipped)
        rw [failed]
        exact inside

/-- The reader tells the truth about atoms if it does about the content of brackets. -/
theorem meets_atom (ih : depth < maxExprDepth → ∀ input,
    Meets .sum (depth + 1) input (readFrom .sum (depth + 1) input)) (input : List Char) :
    Meets .atom depth input (readFrom .atom depth input) := by
  rcases atom_cases input with ⟨value, rest, isLeaf⟩ | ⟨opening, closing, content, rfl, closes⟩ |
    ⟨noLeaf, noBracket⟩
  · rw [readFrom_leaf isLeaf]
    exact .leaf isLeaf
  · by_cases room : depth < maxExprDepth
    · rw [readFrom_opening closes room]
      exact meets_closeGroup closes room (ih room _)
    · have noLeaf := not_leaf_of_opening closes content
      rw [readFrom_deep noLeaf (Nat.le_of_not_lt room)]
      exact .bracket noLeaf (Nat.le_of_not_lt room)
  · by_cases room : depth < maxExprDepth
    · rw [readFrom_noAtom noLeaf noBracket room]
      exact .noAtom noLeaf noBracket
    · rw [readFrom_deep noLeaf (Nat.le_of_not_lt room)]
      exact .bracket noLeaf (Nat.le_of_not_lt room)

/-- The reader tells the truth about a chain if it does about its operands and about the chain one
level deeper. -/
theorem meets_chain (below : low.Below high)
    (operand : ∀ input, Meets low depth input (readFrom low depth input))
    (ih : depth + 1 < maxExprDepth → ∀ input,
      Meets high (depth + 1) input (readFrom high (depth + 1) input)) (input : List Char) :
    Meets high depth input (readFrom high depth input) := by
  have meets := operand input
  cases first : readFrom low depth input with
  | tooDeep =>
      rw [first] at meets
      rw [readFrom_tooDeep below first]
      exact .first below meets
  | failed =>
      rw [first] at meets
      rw [readFrom_failed below first]
      exact .missing below meets
  | read left middle =>
      rw [first] at meets
      by_cases isOperator : ∃ operator later, OperatorAt high middle operator later
      · obtain ⟨operator, later, isOperator⟩ := isOperator
        by_cases room : depth + 1 < maxExprDepth
        · have others := ih room later
          rw [readFrom_linked below first isOperator room]
          generalize readFrom high (depth + 1) later = reading at others ⊢
          cases reading with
          | tooDeep => exact .others below (ReadsWithin.reads meets) isOperator others
          | failed => exact .dangling below meets isOperator others
          | read right rest => exact .linked below meets isOperator room others
        · rw [readFrom_link_deep below first isOperator (Nat.le_of_not_lt room)]
          exact .link below (ReadsWithin.reads meets) isOperator (Nat.le_of_not_lt room)
      · have noOperator (operator : Operator) (later : List Char) :
            ¬ OperatorAt high middle operator later :=
          fun found => isOperator ⟨operator, later, found⟩
        rw [readFrom_single below first noOperator]
        exact .single below meets noOperator

end

/-- The reader tells the truth about every level from every depth. -/
theorem readFrom_meets (level : Level) (depth : Nat) (input : List Char) :
    Meets level depth input (readFrom level depth input) := by
  induction level, depth using level_induction generalizing input with
  | atom depth ih => exact meets_atom ih input
  | chain low high depth below operand ih => exact meets_chain below operand ih input

/-- A reader that is not too deep gives the result of the grammar. -/
theorem reads_outcome {level : Level} {depth : Nat} {input : List Char}
    (shallow : readFrom level depth input ≠ .tooDeep) :
    Reads level input (readFrom level depth input).outcome := by
  have meets := readFrom_meets level depth input
  cases same : readFrom level depth input with
  | tooDeep => exact absurd same shallow
  | failed =>
      rw [same] at meets
      exact meets
  | read value rest =>
      rw [same] at meets
      exact ReadsWithin.reads meets

section

variable {low high level : Level} {depth : Nat} {input rest : List Char} {value : WrittenExpr}

/-- A text that the grammar reads is read or too deep. -/
theorem readFrom_of_reads (reads : Reads level input (some (value, rest))) :
    readFrom level depth input = .tooDeep ∨ readFrom level depth input = .read value rest := by
  have meets := readFrom_meets level depth input
  cases same : readFrom level depth input with
  | tooDeep => exact .inl rfl
  | failed =>
      rw [same] at meets
      exact absurd (reads.unique meets) (by simp)
  | read other later =>
      rw [same] at meets
      obtain ⟨rfl, rfl⟩ := reads.some_unique (ReadsWithin.reads meets)
      exact .inr rfl

/-- What overruns is too deep for the reader. -/
theorem Overruns.readFrom_eq (overrun : Overruns level depth input) :
    readFrom level depth input = .tooDeep := by
  induction overrun with
  | bracket noLeaf deep => exact readFrom_deep noLeaf deep
  | @content depth _ _ _ closes inner ih =>
      by_cases room : depth < maxExprDepth
      · rw [readFrom_opening closes room, ih, closeGroup]
      · exact readFrom_deep (not_leaf_of_opening closes _) (Nat.le_of_not_lt room)
  | first below first ih => exact readFrom_tooDeep below ih
  | link below first isOperator deep =>
      rcases readFrom_of_reads first with tooDeep | read
      · exact readFrom_tooDeep below tooDeep
      · exact readFrom_link_deep below read isOperator deep
  | @others _ _ depth _ _ _ _ _ below first isOperator others ih =>
      rcases readFrom_of_reads first with tooDeep | read
      · exact readFrom_tooDeep below tooDeep
      · by_cases room : depth + 1 < maxExprDepth
        · rw [readFrom_linked below read isOperator room, ih, joinReading]
        · exact readFrom_link_deep below read isOperator (Nat.le_of_not_lt room)

/-- The reader finds a text too deep exactly if the grammar overruns on it. -/
theorem readFrom_eq_tooDeep_iff :
    readFrom level depth input = .tooDeep ↔ Overruns level depth input := by
  refine ⟨fun deep => ?_, Overruns.readFrom_eq⟩
  have meets := readFrom_meets level depth input
  rwa [deep] at meets

end

/-- The settings fill in the faces that were left out. -/
def filled (env : Env) (result : Option (WrittenExpr × List Char)) :
    Option (Expr × List Char) :=
  result.map fun found => (found.1.fill env.defaultFace, found.2)

/-- From every depth and under all settings, a reader that does not find a text too deep gives the
one result that the grammar without a bound has on it. -/
theorem expr_eq_unbounded (env : Env) (depth : Nat) (input : List Char)
    (shallow : expr (maxExprDepth - depth) input ≠ .tooDeep)
    (result : Option (Expr × List Char)) :
    (∃ written, Reads .sum input written ∧ filled env written = result) ↔
      filled env (expr (maxExprDepth - depth) input).outcome = result := by
  have reads : Reads .sum input (expr (maxExprDepth - depth) input).outcome :=
    reads_outcome shallow
  constructor
  · rintro ⟨written, alsoReads, rfl⟩
    rw [alsoReads.unique reads]
  · intro same
    exact ⟨_, reads, same⟩

/-- Four levels are enough for a product in a bracket. The bare die gets the face of the settings,
and the operator behind the bracket stays unread. -/
theorem expr_eq_unbounded_dangling :
    expr (maxExprDepth - 60) "1 - [d × 2 ] -".toList =
        .read (.binary .sub (.num 1) (.binary .mul (.roll 1 none) (.num 2))) " -".toList ∧
      ∀ result, (∃ written, Reads .sum "1 - [d × 2 ] -".toList written ∧
          filled { defaultFace := 6 } written = result) ↔
        some (.binary .sub (.num 1) (.binary .mul (.roll 1 6) (.num 2)), " -".toList) =
          result := by
  have reading : expr (maxExprDepth - 60) "1 - [d × 2 ] -".toList =
      .read (.binary .sub (.num 1) (.binary .mul (.roll 1 none) (.num 2))) " -".toList := by
    decide +kernel
  have unbounded := expr_eq_unbounded { defaultFace := 6 } 60 "1 - [d × 2 ] -".toList
    (by rw [reading]; nofun)
  rw [reading] at unbounded
  exact ⟨reading, unbounded⟩

end Grammar

end DiceChat
