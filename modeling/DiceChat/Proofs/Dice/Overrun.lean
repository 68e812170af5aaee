import DiceChat.Proofs.Dice.Refinement

/-!
This file finds the place where the grammar overruns although the expression it reads stays within
the limits. Inside the expression every operand and every bracket that is tried is also read, so
only the operand of an operator behind it is left to be tried in vain. That operand belongs to one
of the chains that end with the expression, and it sits one level below the last operand there.
-/

namespace DiceChat.Grammar

/-- An expression of the level can go on with these operators. -/
def Level.continuedBy : Level → Char → Bool
  | .atom, _ => false
  | .product, symbol => (Operator.multiplicative? symbol).isSome
  | .sum, symbol =>
      (Operator.multiplicative? symbol).isSome || (Operator.additive? symbol).isSome

/-- An operator follows that an expression of the level can go on with. -/
def Followed (level : Level) (rest : List Char) : Prop :=
  ∃ symbol after, skipSpace rest = symbol :: after ∧ level.continuedBy symbol = true

section

variable {low high level : Level} {depth : Nat} {input rest content : List Char}
  {opening closing : Char}

theorem not_overruns_of_leaf {value : WrittenExpr} (isLeaf : Leaf input value rest) :
    ¬ Overruns .atom depth input := by
  intro overrun
  cases overrun with
  | bracket noLeaf _ => exact noLeaf _ _ isLeaf
  | content closes _ => exact not_leaf_of_opening closes _ _ _ isLeaf
  | first below _ => nomatch below
  | link below _ _ _ => nomatch below
  | others below _ _ _ => nomatch below

/-- A bracket overruns at its own level or in its content. -/
theorem Overruns.of_opening (overrun : Overruns .atom depth (opening :: content)) :
    maxExprDepth ≤ depth ∨ Overruns .sum (depth + 1) (skipSpace content) := by
  cases overrun with
  | bracket _ deep => exact .inl deep
  | content _ inner => exact .inr inner
  | first below _ => nomatch below
  | link below _ _ _ => nomatch below
  | others below _ _ _ => nomatch below

/-- A chain overruns in its first operand or behind the operator that follows it. -/
theorem Overruns.chain_cases (below : low.Below high) (overrun : Overruns high depth input) :
    Overruns low depth input ∨
    ∃ left middle operator later, Reads low input (some (left, middle)) ∧
      OperatorAt high middle operator later ∧
      (maxExprDepth ≤ depth + 1 ∨ Overruns high (depth + 1) later) := by
  cases overrun with
  | bracket _ _ => nomatch below
  | content _ _ => nomatch below
  | first alsoBelow first =>
      obtain rfl := below.unique alsoBelow
      exact .inl first
  | link alsoBelow first isOperator deep =>
      obtain rfl := below.unique alsoBelow
      exact .inr ⟨_, _, _, _, first, isOperator, .inl deep⟩
  | others alsoBelow first isOperator others =>
      obtain rfl := below.unique alsoBelow
      exact .inr ⟨_, _, _, _, first, isOperator, .inr others⟩

/-- An operator of the level continues it. -/
theorem followed_of_operatorAt {operator : Operator} {later : List Char}
    (isOperator : OperatorAt level rest operator later) : Followed level rest := by
  obtain ⟨symbol, after, skipped, reads, -⟩ := isOperator
  refine ⟨symbol, after, skipped, ?_⟩
  cases level with
  | atom => exact absurd reads (by simp [Level.operator?])
  | product => exact Option.isSome_of_eq_some reads
  | sum => exact Bool.or_eq_true_iff.mpr (.inr (Option.isSome_of_eq_some reads))

/-- An operator that continues an operand continues its chain. -/
theorem Followed.of_below (below : low.Below high) (followed : Followed low rest) :
    Followed high rest := by
  obtain ⟨symbol, after, skipped, continues⟩ := followed
  refine ⟨symbol, after, skipped, ?_⟩
  cases below with
  | product => exact absurd continues (by simp [Level.continuedBy])
  | sum => exact Bool.or_eq_true_iff.mpr (.inl continues)

/-- No character is an operator of both chains. -/
theorem multiplicative?_of_additive? {symbol : Char} {operator : Operator}
    (isSum : Operator.additive? symbol = some operator) :
    Operator.multiplicative? symbol = none := by
  unfold Operator.additive? at isSum
  split at isSum
  · rfl
  · rfl
  · exact absurd isSum (by simp)

/-- Where an operator of a chain follows, none continues its operand. -/
theorem not_followed_of_operatorAt {operator : Operator} {later : List Char}
    (below : low.Below high) (isOperator : OperatorAt high rest operator later) :
    ¬ Followed low rest := by
  intro ⟨other, tail, alsoSkipped, continues⟩
  obtain ⟨symbol, after, skipped, reads, -⟩ := isOperator
  obtain ⟨rfl, rfl⟩ := List.cons.injEq .. ▸ skipped.symm.trans alsoSkipped
  cases below with
  | product => exact absurd continues (by simp [Level.continuedBy])
  | sum =>
      have none := multiplicative?_of_additive? reads
      exact absurd continues (by simp [Level.continuedBy, none])

/-- The closing brackets are these three. -/
theorem closing_cases (closes : closerOf opening = some closing) :
    closing = ')' ∨ closing = '）' ∨ closing = ']' := by
  rcases closerOf_eq_some_iff.mp closes with ⟨-, round⟩ | ⟨-, wide⟩ | ⟨-, square⟩
  · exact .inl round
  · exact .inr (.inl wide)
  · exact .inr (.inr square)

/-- No operator stands where a bracket closes. -/
theorem not_followed_of_closing (closes : closerOf opening = some closing)
    (isClosed : skipSpace rest = closing :: content) : ¬ Followed level rest := by
  intro ⟨symbol, after, skipped, continues⟩
  obtain ⟨rfl, rfl⟩ := List.cons.injEq .. ▸ isClosed.symm.trans skipped
  rcases closing_cases closes with rfl | rfl | rfl <;>
    cases level <;> exact absurd continues (by decide)

end

/-- A chain ends with an expression that is read within the limits, and its last operand sits at a
depth of its own. An operator of the chain behind the expression would continue it. -/
inductive EndsChain : Level → Nat → List Char → List Char → Level → Nat → Prop where
  | operand {low high : Level} {depth : Nat} {input rest : List Char} {value : WrittenExpr}
      (below : low.Below high) (operand : ReadsWithin low depth input value rest) :
      EndsChain high depth input rest high depth
  | inside {low high chain : Level} {depth last : Nat} {input rest : List Char}
      (below : low.Below high) (inside : EndsChain low depth input rest chain last) :
      EndsChain high depth input rest chain last
  | linked {low high chain : Level} {depth last : Nat} {input middle later rest : List Char}
      {left : WrittenExpr} {operator : Operator} (below : low.Below high)
      (first : ReadsWithin low depth input left middle)
      (isOperator : OperatorAt high middle operator later)
      (others : EndsChain high (depth + 1) later rest chain last) :
      EndsChain high depth input rest chain last

/-- An operator that continues a chain at the end of an expression continues the expression. -/
theorem EndsChain.followed {level chain : Level} {depth last : Nat} {input rest later : List Char}
    {operator : Operator} (ends : EndsChain level depth input rest chain last)
    (isOperator : OperatorAt chain rest operator later) : Followed level rest := by
  induction ends with
  | operand below operand => exact followed_of_operatorAt isOperator
  | inside below inside ih => exact (ih isOperator).of_below below
  | linked below first isLink others ih => exact ih isOperator

/-- The operand behind an operator of the chain may not sit there, or the grammar overruns on it. -/
def OverrunsBehind (chain : Level) (last : Nat) (rest : List Char) : Prop :=
  ∃ operator later, OperatorAt chain rest operator later ∧
    (maxExprDepth ≤ last + 1 ∨ Overruns chain (last + 1) later)

/-- The grammar overruns if it does so behind an expression. -/
theorem EndsChain.overruns {level chain : Level} {depth last : Nat} {input rest : List Char}
    (ends : EndsChain level depth input rest chain last)
    (behind : OverrunsBehind chain last rest) : Overruns level depth input := by
  induction ends with
  | operand below operand =>
      obtain ⟨operator, later, isOperator, deep | overrun⟩ := behind
      · exact .link below operand.reads isOperator deep
      · exact .others below operand.reads isOperator overrun
  | inside below inside ih => exact .first below (ih behind)
  | linked below first isOperator others ih =>
      exact .others below first.reads isOperator (ih behind)

/-- If the grammar overruns although it reads an expression within the limits, it does so behind an
operator that follows the expression. -/
theorem ReadsWithin.overrunsBehind {level : Level} {depth : Nat} {input rest : List Char}
    {value : WrittenExpr} (fits : ReadsWithin level depth input value rest)
    (overrun : Overruns level depth input) :
    ∃ chain last, EndsChain level depth input rest chain last ∧ OverrunsBehind chain last rest := by
  induction fits with
  | leaf isLeaf => exact absurd overrun (not_overruns_of_leaf isLeaf)
  | group closes room inner isClosed ih =>
      rcases overrun.of_opening with deep | inside
      · omega
      · obtain ⟨chain, last, ends, _, _, isOperator, -⟩ := ih inside
        exact absurd (ends.followed isOperator) (not_followed_of_closing closes isClosed)
  | single below first noOperator ih =>
      rcases overrun.chain_cases below with inFirst | ⟨_, _, _, _, alsoFirst, isOperator, -⟩
      · obtain ⟨chain, last, ends, behind⟩ := ih inFirst
        exact ⟨chain, last, .inside below ends, behind⟩
      · obtain ⟨-, rfl⟩ := first.reads.some_unique alsoFirst
        exact absurd isOperator (noOperator _ _)
  | dangling below first isOperator missing ih =>
      rcases overrun.chain_cases below with inFirst | ⟨_, _, _, _, alsoFirst, alsoOperator, deep⟩
      · obtain ⟨chain, last, ends, behind⟩ := ih inFirst
        exact ⟨chain, last, .inside below ends, behind⟩
      · obtain ⟨-, rfl⟩ := first.reads.some_unique alsoFirst
        exact ⟨_, _, .operand below first, _, _, alsoOperator, deep⟩
  | linked below first isOperator room others firstBehind ih =>
      rcases overrun.chain_cases below with
        inFirst | ⟨_, _, _, _, alsoFirst, alsoOperator, deep | inOthers⟩
      · obtain ⟨_, _, ends, _, _, inner, -⟩ := firstBehind inFirst
        exact absurd (ends.followed inner) (not_followed_of_operatorAt below isOperator)
      · omega
      · obtain ⟨-, rfl⟩ := first.reads.some_unique alsoFirst
        obtain ⟨-, rfl⟩ := isOperator.unique alsoOperator
        obtain ⟨chain, last, ends, behind⟩ := ih inOthers
        exact ⟨chain, last, .linked below first isOperator ends, behind⟩

/-- The reader finds an expression within the limits, if nothing overruns behind it. -/
theorem expr_eq_of_fits {input rest : List Char} {value : WrittenExpr}
    (fits : ReadsWithin .sum 0 input value rest)
    (behind : ∀ chain last, EndsChain .sum 0 input rest chain last →
      ¬ OverrunsBehind chain last rest) :
    expr maxExprDepth input = .read value rest := by
  rcases readFrom_of_reads fits.reads with deep | found
  · obtain ⟨chain, last, ends, overrun⟩ := fits.overrunsBehind (readFrom_eq_tooDeep_iff.mp deep)
    exact absurd overrun (behind chain last ends)
  · exact found

/-- What the reader finds is an expression within the limits, and nothing overruns behind it. -/
theorem fits_of_expr_eq {input rest : List Char} {value : WrittenExpr}
    (found : expr maxExprDepth input = .read value rest) :
    ReadsWithin .sum 0 input value rest ∧
      ∀ chain last, EndsChain .sum 0 input rest chain last → ¬ OverrunsBehind chain last rest := by
  have same : readFrom .sum 0 input = .read value rest := found
  have meets := readFrom_meets .sum 0 input
  rw [same] at meets
  refine ⟨meets, fun chain last ends overrun => ?_⟩
  have deep := readFrom_eq_tooDeep_iff.mpr (ends.overruns overrun)
  exact absurd (same.symm.trans deep) (by simp)

end DiceChat.Grammar
