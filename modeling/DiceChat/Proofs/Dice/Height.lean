import DiceChat.Proofs.Dice.Written

/-!
This file reads the depth of a written expression off its text. One pass over the characters
counts operators and brackets, with one open sum and one open product for each open bracket, and
finds the depth of the tree without building it. The budget bounds that depth.
-/

namespace DiceChat.Grammar

/-- An open chain knows its operators so far and the deepest operand before the last of them. -/
structure Chain where
  links : Nat := 0
  peak : Nat := 0
  deriving DecidableEq, Repr

namespace Chain

/-- This is the height of a chain that ends with an operand of the given height. -/
def height (chain : Chain) (last : Nat) : Nat := max chain.peak (last + chain.links)

/-- An operator after such an operand puts it one level below. -/
def link (chain : Chain) (last : Nat) : Chain :=
  ⟨chain.links + 1, max chain.peak (last + chain.links + 1)⟩

@[simp] theorem height_new (last : Nat) : ({} : Chain).height last = last := by
  simp [height]

/-- A chain that goes on has the height of its operands joined to the right. -/
theorem height_link (chain : Chain) (left right : Nat) :
    (chain.link left).height right = chain.height (1 + max left right) := by
  simp only [height, link]
  omega

end Chain

/-- A scan is inside a product of a sum, after an operand, with open chains around its bracket. -/
structure Scan where
  sum : Chain := {}
  product : Chain := {}
  last : Nat := 0
  outer : List (Chain × Chain) := []
  deriving DecidableEq, Repr

namespace Scan

/-- This is the height of the innermost sum if it ends here. -/
def height (scan : Scan) : Nat := scan.sum.height (scan.product.height scan.last)

def times (scan : Scan) : Scan :=
  { scan with product := scan.product.link scan.last, last := 0 }

def plus (scan : Scan) : Scan :=
  { scan with sum := scan.sum.link (scan.product.height scan.last), product := {}, last := 0 }

/-- A bracket starts a sum of its own. -/
def enter (scan : Scan) : Scan := { outer := (scan.sum, scan.product) :: scan.outer }

/-- A closed bracket is an operand of what is around it. -/
def leave (scan : Scan) : Scan :=
  match scan.outer with
  | [] => scan
  | (sum, product) :: outer => ⟨sum, product, scan.height, outer⟩

/-- Only operators and brackets count. -/
def step (scan : Scan) : Char → Scan
  | '×' | '*' | '÷' | '/' => scan.times
  | '+' | '-' => scan.plus
  | '(' | '（' | '[' => scan.enter
  | ')' | '）' | ']' => scan.leave
  | _ => scan

end Scan

/-- This is the height of a whole text. -/
def height (text : List Char) : Nat := (text.foldl Scan.step {}).height

/-- Digits do not count. -/
theorem Scan.step_digit (scan : Scan) {character : Char} (digit : character.isDigit = true) :
    scan.step character = scan := by
  unfold step
  split <;> first | rfl | exact absurd digit (by decide)

/-- Space does not count. -/
theorem Scan.step_space (scan : Scan) {character : Char}
    (space : Text.isChatSpace character = true) : scan.step character = scan := by
  unfold step
  split <;> first | rfl | exact absurd space (by decide)

/-- Characters that do not count can be skipped. -/
theorem Scan.foldl_idle {text : List Char}
    (idle : ∀ character ∈ text, ∀ scan : Scan, scan.step character = scan) (scan : Scan) :
    text.foldl step scan = scan := by
  induction text with
  | nil => rfl
  | cons character rest ih =>
      obtain ⟨here, later⟩ := List.forall_mem_cons.mp idle
      rw [List.foldl_cons, here scan, ih later]

theorem Scan.foldl_digits {text : List Char}
    (digits : ∀ character ∈ text, character.isDigit = true) (scan : Scan) :
    text.foldl step scan = scan :=
  foldl_idle (fun character member scan => scan.step_digit (digits character member)) scan

theorem Scan.foldl_blank {text : List Char} (blank : Blank text) (scan : Scan) :
    text.foldl step scan = scan :=
  foldl_idle (fun character member scan => scan.step_space (blank character member)) scan

/-- An opening bracket is entered and its closing bracket is left. -/
theorem Scan.step_bracket {opening closing : Char} (closes : closerOf opening = some closing)
    (scan : Scan) : scan.step opening = scan.enter ∧ scan.step closing = scan.leave := by
  rcases closerOf_eq_some_iff.mp closes with ⟨rfl, rfl⟩ | ⟨rfl, rfl⟩ | ⟨rfl, rfl⟩ <;>
    exact ⟨rfl, rfl⟩

theorem Scan.step_multiplicative {symbol : Char} {operator : Operator}
    (reads : Operator.multiplicative? symbol = some operator) (scan : Scan) :
    scan.step symbol = scan.times := by
  unfold Operator.multiplicative? at reads
  split at reads <;> first | rfl | exact absurd reads (by simp)

theorem Scan.step_additive {symbol : Char} {operator : Operator}
    (reads : Operator.additive? symbol = some operator) (scan : Scan) :
    scan.step symbol = scan.plus := by
  unfold Operator.additive? at reads
  split at reads <;> first | rfl | exact absurd reads (by simp)

/-- A scan can start an operand of a level. -/
structure Scan.Ready (level : Level) (scan : Scan) : Prop where
  noOperand : scan.last = 0
  noFactor : level = .sum → scan.product = {}

/-- A scan over an operand keeps what is around it and puts its depth there. -/
def Scan.Took (level : Level) (depth : Nat) (before after : Scan) : Prop :=
  match level with
  | .atom => after = { before with last := depth }
  | .product =>
      after.sum = before.sum ∧ after.outer = before.outer ∧
        after.product.height after.last = before.product.height depth
  | .sum => after.outer = before.outer ∧ after.height = before.sum.height depth

/-- The scan over a bracket puts the depth of its content. -/
theorem Scan.took_group {opening closing : Char} {before content after : List Char} {depth : Nat}
    (closes : closerOf opening = some closing) (blankBefore : Blank before)
    (blankAfter : Blank after)
    (inner : ∀ scan : Scan, scan.Ready .sum → Took .sum depth scan (content.foldl step scan))
    (scan : Scan) :
    Took .atom depth scan
      ((opening :: (before ++ content ++ after ++ [closing])).foldl step scan) := by
  have enters := (step_bracket closes scan).1
  have leaves := (step_bracket closes (content.foldl step scan.enter)).2
  obtain ⟨sameOuter, sameHeight⟩ := inner scan.enter ⟨rfl, fun _ => rfl⟩
  have whole : (opening :: (before ++ content ++ after ++ [closing])).foldl step scan =
      (content.foldl step scan.enter).leave := by
    rw [List.foldl_cons, enters, List.foldl_append, List.foldl_append, List.foldl_append,
      foldl_blank blankBefore, foldl_blank blankAfter, List.foldl_cons, List.foldl_nil, leaves]
  rw [whole, leave, sameOuter]
  change (⟨scan.sum, scan.product, (content.foldl step scan.enter).height, scan.outer⟩ : Scan) =
    { scan with last := depth }
  rw [sameHeight]
  exact congrArg (fun last => { scan with last }) (Chain.height_new depth)

/-- The scan over a chain with an operator puts the depth of its tree. -/
theorem Scan.took_linked {low high : Level} {left right : Nat} {symbol : Char}
    {operator : Operator} {leftText before after rightText : List Char}
    (below : low.Below high) (reads : high.operator? symbol = some operator)
    (blankBefore : Blank before) (blankAfter : Blank after)
    (first : ∀ scan : Scan, scan.Ready low → Took low left scan (leftText.foldl step scan))
    (others : ∀ scan : Scan, scan.Ready high → Took high right scan (rightText.foldl step scan))
    (scan : Scan) (ready : scan.Ready high) :
    Took high (1 + max left right) scan
      ((leftText ++ before ++ symbol :: (after ++ rightText)).foldl step scan) := by
  have whole : (leftText ++ before ++ symbol :: (after ++ rightText)).foldl step scan =
      rightText.foldl step ((leftText.foldl step scan).step symbol) := by
    rw [List.foldl_append, List.foldl_append, foldl_blank blankBefore, List.foldl_cons,
      List.foldl_append, foldl_blank blankAfter]
  rw [whole]
  cases below with
  | product =>
      rw [step_multiplicative reads, first scan ⟨ready.noOperand, nofun⟩]
      obtain ⟨sameSum, sameOuter, sameHeight⟩ :=
        others { scan with product := scan.product.link left, last := 0 } ⟨rfl, nofun⟩
      refine ⟨sameSum, sameOuter, sameHeight.trans ?_⟩
      exact Chain.height_link scan.product left right
  | sum =>
      obtain ⟨sameSum, sameOuter, sameHeight⟩ := first scan ⟨ready.noOperand, nofun⟩
      rw [ready.noFactor rfl, Chain.height_new] at sameHeight
      rw [step_additive reads, plus, sameSum, sameHeight]
      obtain ⟨outerAfter, heightAfter⟩ :=
        others { leftText.foldl step scan with sum := scan.sum.link left, product := {}, last := 0 }
          ⟨rfl, fun _ => rfl⟩
      refine ⟨outerAfter.trans sameOuter, heightAfter.trans ?_⟩
      exact Chain.height_link scan.sum left right

/-- The scan over a written operand puts its depth. -/
theorem Written.took {level : Level} {budget : Nat} {value : WrittenExpr} {text : List Char}
    (written : Written level budget value text) (scan : Scan) (ready : scan.Ready level) :
    Scan.Took level value.depth scan (text.foldl Scan.step scan) := by
  induction written generalizing scan with
  | @roll _ counter face counterDigits _ faceDigits _ =>
      have same : (counter ++ 'd' :: face).foldl Scan.step scan = scan := by
        rw [List.foldl_append, Scan.foldl_digits counterDigits, List.foldl_cons]
        exact Scan.foldl_digits faceDigits scan
      rw [same]
      exact congrArg (fun last => { scan with last }) ready.noOperand
  | num digits _ _ =>
      rw [Scan.foldl_digits digits]
      exact congrArg (fun last => { scan with last }) ready.noOperand
  | group closes blankBefore blankAfter _ ih =>
      exact Scan.took_group closes blankBefore blankAfter ih scan
  | @single _ _ _ value text below _ ih =>
      cases below with
      | product =>
          rw [ih scan ⟨ready.noOperand, nofun⟩]
          exact ⟨rfl, rfl, rfl⟩
      | sum =>
          obtain ⟨sameSum, sameOuter, sameHeight⟩ := ih scan ⟨ready.noOperand, nofun⟩
          refine ⟨sameOuter, ?_⟩
          rw [Scan.height, sameSum, sameHeight, ready.noFactor rfl, Chain.height_new]
  | linked below reads blankBefore blankAfter _ _ leftTook rightTook =>
      exact Scan.took_linked below reads blankBefore blankAfter leftTook rightTook scan ready

/-- The height of a written expression is the depth of its tree. -/
theorem Written.height_eq {budget : Nat} {value : WrittenExpr} {text : List Char}
    (written : Written .sum budget value text) : height text = value.depth := by
  obtain ⟨-, sameHeight⟩ := written.took {} ⟨rfl, fun _ => rfl⟩
  exact sameHeight.trans (Chain.height_new value.depth)

example : height "(1d6*2+1)*3+4".toList = 4 := by decide

/-- Within a budget each level has a largest depth. -/
def Level.most : Level → Nat → Nat
  | .atom, budget => 2 * (budget - 2)
  | .product, budget => 2 * budget - 3
  | .sum, budget => 2 * (budget - 1)

/-- A written expression is at most as deep as its budget allows. -/
theorem Written.depth_le_most {level : Level} {budget : Nat} {value : WrittenExpr}
    {text : List Char} (written : Written level budget value text) :
    value.depth ≤ level.most budget := by
  induction written with
  | roll => exact Nat.zero_le _
  | num => exact Nat.zero_le _
  | group _ _ _ _ ih =>
      simp only [Level.most] at ih ⊢
      omega
  | single below _ ih =>
      cases below with
      | product =>
          simp only [Level.most] at ih ⊢
          omega
      | sum =>
          simp only [Level.most] at ih ⊢
          omega
  | linked below _ _ _ _ _ leftBound rightBound =>
      cases below with
      | product =>
          simp only [Level.most, Formula.depth] at leftBound rightBound ⊢
          omega
      | sum =>
          simp only [Level.most, Formula.depth] at leftBound rightBound ⊢
          omega

/-- This counts the opening brackets of a text. -/
def brackets (text : List Char) : Nat := text.countP fun character => (closerOf character).isSome

/-- So many levels can stand around an operand. -/
def Level.around : Level → Nat
  | .atom => 2
  | .product => 1
  | .sum => 0

/-- A written expression is deeper than its budget by at most one level for each bracket. -/
theorem Written.depth_le_brackets {level : Level} {budget : Nat} {value : WrittenExpr}
    {text : List Char} (written : Written level budget value text) :
    value.depth = 0 ∨ value.depth + level.around ≤ budget + brackets text := by
  induction written with
  | roll => exact .inl rfl
  | num => exact .inl rfl
  | @group _ _ _ _ before content after closes _ _ _ ih =>
      right
      simp only [brackets, Level.around, List.countP_cons, List.countP_append, closes,
        Option.isSome_some, if_true] at ih ⊢
      omega
  | single below _ ih =>
      cases below with
      | product =>
          simp only [Level.around] at ih ⊢
          omega
      | sum =>
          simp only [Level.around] at ih ⊢
          omega
  | linked below _ _ _ _ _ leftBound rightBound =>
      right
      cases below with
      | product =>
          simp only [brackets, Level.around, Formula.depth, List.countP_cons, List.countP_append]
            at leftBound rightBound ⊢
          omega
      | sum =>
          simp only [brackets, Level.around, Formula.depth, List.countP_cons, List.countP_append]
            at leftBound rightBound ⊢
          omega

end DiceChat.Grammar
