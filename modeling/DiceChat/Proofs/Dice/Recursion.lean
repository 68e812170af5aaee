import DiceChat.Proofs.Dice.OrderedChoice

/-!
This file turns the reader of expressions into recursive equations. The reader takes a chain in a
loop and folds it to the right, and it bounds its brackets twice. From a start depth it satisfies
the right-recursive equations of the grammar, level by level, except that it may find a text too
deep.
-/

namespace DiceChat.Grammar

/-- This is what a chain makes of the reading behind its operator. -/
def joinReading (operator : Operator) (left : WrittenExpr) (middle : List Char) :
    Reading WrittenExpr → Reading WrittenExpr
  | .tooDeep => .tooDeep
  | .failed => .read left middle
  | .read right rest => .read (.binary operator left right) rest

/-- A missing operand ends the loop over a chain, but never makes it fail. -/
theorem links_ne_failed (operator? : Char → Option Operator)
    (operand : Nat → List Char → Reading WrittenExpr) (budget : Nat) (input : List Char) :
    links operator? operand budget input ≠ .failed := by
  induction budget using Nat.strongRecOn generalizing input with
  | ind budget ih =>
      rw [links]
      split
      · simp
      · rcases budget with _ | _ | budget
        · simp
        · simp
        · dsimp only
          split
          · simp
          · simp
          · rename_i value rest _
            have later := ih (budget + 1) (by omega) rest
            cases same : links operator? operand (budget + 1) rest with
            | tooDeep => simp [Reading.map]
            | failed => exact absurd same later
            | read => simp [Reading.map]

section

variable {operator? : Char → Option Operator} {operand : Nat → List Char → Reading WrittenExpr}
  {budget : Nat} {input middle later : List Char} {left : WrittenExpr} {operator : Operator}

/-- A chain without an operator behind its first operand is that operand. -/
theorem chain_single (isFirst : operand budget input = .read left middle)
    (noOperator : infixed operator? middle = none) :
    chain operator? operand budget input = .read left middle := by
  rw [chain, isFirst]
  dsimp only
  rw [links, noOperator]
  rfl

/-- A chain is too deep where an operator leaves no level for its operand. -/
theorem chain_deep (isFirst : operand budget input = .read left middle)
    (isOperator : infixed operator? middle = some (operator, later)) (deep : budget ≤ 1) :
    chain operator? operand budget input = .tooDeep := by
  rw [chain, isFirst]
  dsimp only
  rw [links, isOperator]
  obtain rfl | rfl : budget = 0 ∨ budget = 1 := by omega
  · rfl
  · rfl

/-- The loop over a chain reads behind an operator what the chain itself reads there. -/
theorem chain_linked (isFirst : operand budget input = .read left middle)
    (isOperator : infixed operator? middle = some (operator, later)) (room : 1 < budget) :
    chain operator? operand budget input =
      joinReading operator left middle (chain operator? operand (budget - 1) later) := by
  obtain ⟨less, rfl⟩ : ∃ less, budget = less + 2 := ⟨budget - 2, by omega⟩
  rw [chain, isFirst]
  dsimp only
  rw [links, isOperator]
  dsimp only [Nat.add_succ_sub_one]
  rw [chain]
  cases operand (less + 1) later with
  | tooDeep => rfl
  | failed => rfl
  | read next rest =>
      dsimp only
      have notFailed := links_ne_failed operator? operand (less + 1) rest
      cases same : links operator? operand (less + 1) rest with
      | tooDeep => rfl
      | failed => exact absurd same notFailed
      | read => rfl

end

section

variable {content other : Nat → List Char → Reading WrittenExpr} {budget : Nat}

/-- A chain depends on its operands only up to its own budget. -/
theorem chain_congr {operator? : Char → Option Operator}
    (same : ∀ less ≤ budget, ∀ input, content less input = other less input) (input : List Char) :
    chain operator? content budget input = chain operator? other budget input := by
  induction budget using Nat.strongRecOn generalizing input with
  | ind budget ih =>
      cases isFirst : content budget input with
      | tooDeep => rw [chain, chain, ← same budget (Nat.le_refl _), isFirst]
      | failed => rw [chain, chain, ← same budget (Nat.le_refl _), isFirst]
      | read left middle =>
          have alsoFirst := (same budget (Nat.le_refl _) input).symm.trans isFirst
          cases found : infixed operator? middle with
          | none => rw [chain_single isFirst found, chain_single alsoFirst found]
          | some result =>
              by_cases deep : budget ≤ 1
              · rw [chain_deep isFirst found deep, chain_deep alsoFirst found deep]
              · rw [chain_linked isFirst found (by omega), chain_linked alsoFirst found (by omega),
                  ih (budget - 1) (by omega) fun less within => same less (by omega)]

/-- An atom depends on the content of brackets only below its own budget. -/
theorem atom_congr (same : ∀ less < budget, ∀ input, content less input = other less input)
    (input : List Char) : atom content budget input = atom other budget input := by
  rw [atom, atom]
  cases (roll input).or (num input) with
  | some found => rfl
  | none =>
      dsimp only
      match budget, input with
      | 0, _ => rfl
      | _ + 1, [] => rfl
      | budget + 1, _ :: rest => rw [group, group, same budget (by omega)]

/-- A sum depends on the content of brackets only below its own budget. -/
theorem sum_congr (same : ∀ less < budget, ∀ input, content less input = other less input)
    (input : List Char) : sum content budget input = sum other budget input := by
  apply chain_congr
  intro less within
  apply chain_congr
  intro least below
  apply atom_congr
  exact fun bound smaller => same bound (by omega)

end

/-- More brackets than the budget make no difference. -/
theorem exprWithin_congr {first second budget : Nat} (inFirst : budget ≤ first)
    (inSecond : budget ≤ second) (input : List Char) :
    exprWithin first budget input = exprWithin second budget input := by
  induction first generalizing second budget input with
  | zero =>
      -- Without a budget no bracket is opened.
      cases second with
      | zero => rfl
      | succ second => exact sum_congr (fun less smaller => by omega) input
  | succ first ih =>
      cases second with
      | zero => exact sum_congr (fun less smaller => by omega) input
      | succ second => exact sum_congr (fun less smaller => ih (by omega) (by omega)) input

/-- The content of brackets is read like the whole expression. -/
theorem expr_eq_sum (budget : Nat) (input : List Char) :
    expr budget input = sum expr budget input := by
  cases budget with
  | zero => exact sum_congr (fun less smaller => by omega) input
  | succ budget =>
      exact sum_congr (fun less smaller => exprWithin_congr (by omega) (Nat.le_refl _)) input

/-- This reads one level of the grammar from a start depth. -/
def readFrom (level : Level) (depth : Nat) : List Char → Reading WrittenExpr :=
  match level with
  | .atom => atom expr (maxExprDepth - depth)
  | .product => chain Operator.multiplicative? (atom expr) (maxExprDepth - depth)
  | .sum => expr (maxExprDepth - depth)

section

variable {low high : Level} {depth : Nat} {input middle later rest content : List Char}
  {left value : WrittenExpr} {operator : Operator} {opening closing : Char}

/-- Every level above the atoms is a chain of the level below it. -/
theorem readFrom_eq_chain (below : low.Below high) (depth : Nat) :
    ∃ operand, readFrom low depth = operand (maxExprDepth - depth) ∧
      (∀ depth, readFrom high depth = chain high.operator? operand (maxExprDepth - depth)) := by
  cases below with
  | product => exact ⟨_, rfl, fun _ => rfl⟩
  | sum => exact ⟨_, rfl, fun depth => funext fun input => expr_eq_sum _ input⟩

theorem readFrom_leaf (isLeaf : Leaf input value rest) :
    readFrom .atom depth input = .read value rest := by
  rw [readFrom, atom, leaf_iff.mp isLeaf]

/-- Where no roll and no number stands, a bracket is looked for. -/
theorem readFrom_noLeaf (noLeaf : ∀ value rest, ¬ Leaf input value rest) :
    readFrom .atom depth input = group expr (maxExprDepth - depth) input := by
  have missing : (roll input).or (num input) = none := by
    rw [Option.eq_none_iff_forall_ne_some]
    exact fun found same => noLeaf _ _ (leaf_iff.mpr same)
  rw [readFrom, atom, missing]

theorem readFrom_deep (noLeaf : ∀ value rest, ¬ Leaf input value rest)
    (deep : maxExprDepth ≤ depth) : readFrom .atom depth input = .tooDeep := by
  rw [readFrom_noLeaf noLeaf, Nat.sub_eq_zero_of_le deep, group]

theorem readFrom_opening (closes : closerOf opening = some closing)
    (room : depth < maxExprDepth) :
    readFrom .atom depth (opening :: content) =
      closeGroup closing (readFrom .sum (depth + 1) (skipSpace content)) := by
  have level : maxExprDepth - depth = maxExprDepth - (depth + 1) + 1 := by omega
  rw [readFrom_noLeaf (not_leaf_of_opening closes content), level, group, closes]
  rfl

theorem readFrom_noAtom (noLeaf : ∀ value rest, ¬ Leaf input value rest)
    (noBracket : ∀ opening content, input = opening :: content → closerOf opening = none)
    (room : depth < maxExprDepth) : readFrom .atom depth input = .failed := by
  have level : maxExprDepth - depth = maxExprDepth - (depth + 1) + 1 := by omega
  rw [readFrom_noLeaf noLeaf, level]
  cases input with
  | nil => rfl
  | cons opening content => rw [group, noBracket opening content rfl]

theorem readFrom_tooDeep (below : low.Below high) (first : readFrom low depth input = .tooDeep) :
    readFrom high depth input = .tooDeep := by
  obtain ⟨operand, isLow, isHigh⟩ := readFrom_eq_chain below depth
  rw [isHigh, chain, ← isLow, first]

theorem readFrom_failed (below : low.Below high) (first : readFrom low depth input = .failed) :
    readFrom high depth input = .failed := by
  obtain ⟨operand, isLow, isHigh⟩ := readFrom_eq_chain below depth
  rw [isHigh, chain, ← isLow, first]

theorem readFrom_single (below : low.Below high)
    (first : readFrom low depth input = .read value rest)
    (noOperator : ∀ operator later, ¬ OperatorAt high rest operator later) :
    readFrom high depth input = .read value rest := by
  obtain ⟨operand, isLow, isHigh⟩ := readFrom_eq_chain below depth
  have missing : infixed high.operator? rest = none := by
    rw [Option.eq_none_iff_forall_ne_some]
    exact fun found same => noOperator _ _ (infixed_eq_some_iff.mp same)
  rw [isLow] at first
  rw [isHigh, chain_single first missing]

theorem readFrom_link_deep (below : low.Below high)
    (first : readFrom low depth input = .read left middle)
    (isOperator : OperatorAt high middle operator later) (deep : maxExprDepth ≤ depth + 1) :
    readFrom high depth input = .tooDeep := by
  obtain ⟨operand, isLow, isHigh⟩ := readFrom_eq_chain below depth
  rw [isLow] at first
  rw [isHigh, chain_deep first (infixed_eq_some_iff.mpr isOperator) (by omega)]

theorem readFrom_linked (below : low.Below high)
    (first : readFrom low depth input = .read left middle)
    (isOperator : OperatorAt high middle operator later) (room : depth + 1 < maxExprDepth) :
    readFrom high depth input =
      joinReading operator left middle (readFrom high (depth + 1) later) := by
  obtain ⟨operand, isLow, isHigh⟩ := readFrom_eq_chain below depth
  have level : maxExprDepth - depth - 1 = maxExprDepth - (depth + 1) := by omega
  rw [isLow] at first
  rw [isHigh, chain_linked first (infixed_eq_some_iff.mpr isOperator) (by omega), level, ← isHigh]

end

/-- A fact about every level and depth follows for an atom from the sum one level deeper, and for a
chain from its operands and from the chain one level deeper. -/
theorem level_induction {motive : Level → Nat → Prop}
    (atom : ∀ depth, (depth < maxExprDepth → motive .sum (depth + 1)) → motive .atom depth)
    (chain : ∀ low high depth, low.Below high → motive low depth →
      (depth + 1 < maxExprDepth → motive high (depth + 1)) → motive high depth)
    (level : Level) (depth : Nat) : motive level depth := by
  induction left : maxExprDepth - depth using Nat.strongRecOn generalizing level depth with
  | ind left ih =>
      have atDepth : motive .atom depth :=
        atom depth fun room => ih (maxExprDepth - (depth + 1)) (by omega) .sum (depth + 1) rfl
      have lift (low high : Level) (below : low.Below high) (operand : motive low depth) :
          motive high depth :=
        chain low high depth below operand fun room =>
          ih (maxExprDepth - (depth + 1)) (by omega) high (depth + 1) rfl
      have product := lift .atom .product .product atDepth
      cases level with
      | atom => exact atDepth
      | product => exact product
      | sum => exact lift .product .sum .sum product

end DiceChat.Grammar
