import DiceChat.Proofs.Dice.Rendered

/-!
This file tells printed expressions apart. In front of any text that ends it, a printed expression
shows where it ends and which expression it is, so no two expressions are printed alike. Literals
may be negative and numbers may be of any size, so more is printed than the grammar reads back.
-/

namespace DiceChat

open Grammar

/-- There are two strengths of binding. -/
theorem Operator.precedence_bounds (operator : Operator) :
    1 ≤ operator.precedence ∧ operator.precedence ≤ 2 := by
  cases operator <;> decide

/-- Operators are of one level if neither stands bare in the other. -/
theorem Operator.level_eq_of_closed {first second : Operator}
    (firstClosed : first.standsBareIn (some second) = false)
    (secondClosed : second.standsBareIn (some first) = false) : first.level = second.level := by
  cases first <;> cases second <;>
    first | rfl | exact absurd firstClosed (by decide) | exact absurd secondClosed (by decide)

theorem Operator.symbol_ne_closing (operator : Operator) : operator.symbol ≠ ')' := by
  cases operator <;> decide

/-- Operators of one level have operands of one level. -/
theorem printedLevel_congr {first second : Operator} (same : first.level = second.level) :
    printedLevel (some first) = printedLevel (some second) := by
  cases first <;> cases second <;> first | rfl | exact absurd same (by decide)

/-- What ends an expression ends an atom. -/
theorem Grammar.Ends.atom {level : Level} {rest : List Char} (ends : Ends level rest) :
    Ends .atom rest := by
  cases level with
  | atom => exact ends
  | product => exact ends.of_below .product
  | sum => exact (ends.of_below .sum).of_below .product

/-- No operation ends before its own symbol. -/
theorem Grammar.Ends.ne_symbol {operator : Operator} {rest later : List Char}
    (ends : Ends operator.level rest) : rest ≠ operator.symbol :: later := by
  rintro rfl
  exact ends.notFollowed (followed_of_operatorAt (operatorAt_symbol operator later))

namespace Text

/-- A number in front of a text without a digit ends where its digits end. -/
theorem natural_append_inj {first second : Nat} {rest later : List Char}
    (restStops : Stops Char.isDigit rest) (laterStops : Stops Char.isDigit later)
    (same : natural first ++ rest = natural second ++ later) : first = second ∧ rest = later := by
  have digits : natural first = natural second := by
    rw [← takeWhile_of_stops (fun _ => isDigit_of_mem_natural) restStops, same,
      takeWhile_of_stops (fun _ => isDigit_of_mem_natural) laterStops]
  have value := congrArg digitsValue digits
  rw [digitsValue_natural, digitsValue_natural] at value
  rw [digits] at same
  exact ⟨value, List.append_cancel_left same⟩

/-- A number starts with a digit. -/
theorem natural_append_ne {value : Nat} {rest later : List Char} {first : Char}
    (noDigit : first.isDigit = false) : natural value ++ rest ≠ first :: later := by
  obtain ⟨head, others, digits⟩ := List.exists_cons_of_ne_nil (natural_ne_nil value)
  have digit : head.isDigit = true := isDigit_of_mem_natural (digits ▸ List.mem_cons_self)
  intro same
  rw [digits, List.cons_append] at same
  obtain ⟨rfl, -⟩ := List.cons.inj same
  exact absurd digit (by simp [noDigit])

/-- An integer in front of a text without a digit shows its sign and ends where its digits end. -/
theorem integer_append_inj {first second : Int} {rest later : List Char}
    (restStops : Stops Char.isDigit rest) (laterStops : Stops Char.isDigit later)
    (same : integer first ++ rest = integer second ++ later) : first = second ∧ rest = later := by
  rw [integer, integer] at same
  split at same
  · split at same
    · obtain ⟨size, after⟩ :=
        natural_append_inj restStops laterStops (List.cons.inj same).2
      exact ⟨by omega, after⟩
    · -- A sign on one side only would stand against a digit.
      exact absurd same.symm (natural_append_ne (by decide))
  · split at same
    · exact absurd same (natural_append_ne (by decide))
    · obtain ⟨size, after⟩ := natural_append_inj restStops laterStops same
      exact ⟨by omega, after⟩

end Text

namespace Expr

/-- An operand that does not stand bare is printed as if it stood alone. -/
theorem renderIn_eq_of_closed {outer : Option Operator} {operator : Operator} {left right : Expr}
    (closed : operator.standsBareIn outer = false) :
    renderIn outer (.binary operator left right) = renderIn none (.binary operator left right) := by
  rw [renderIn, renderIn, closed]
  rfl

/-- Alone, an operation stands in parentheses. -/
theorem renderIn_none_append (operator : Operator) (left right : Expr) (rest : List Char) :
    renderIn none (.binary operator left right) ++ rest =
      '(' :: (renderIn (some operator) left ++
        operator.symbol :: (renderIn (some operator) right ++ ')' :: rest)) := by
  simp [renderIn, parenthesise, Operator.standsBareIn]

/-- A bare operation is its operands and the symbol between them. -/
theorem renderIn_bare_append {outer : Option Operator} {operator : Operator}
    (bare : operator.standsBareIn outer = true) (left right : Expr) (rest : List Char) :
    renderIn outer (.binary operator left right) ++ rest =
      renderIn (some operator) left ++
        operator.symbol :: (renderIn (some operator) right ++ rest) := by
  simp [renderIn, parenthesise, bare]

/-- An expression is printed as if it stood alone, or it is a bare operation. -/
theorem renderIn_cases (outer : Option Operator) (expr : Expr) :
    renderIn outer expr = renderIn none expr ∨
      ∃ operator left right, expr = .binary operator left right ∧
        operator.standsBareIn outer = true := by
  cases expr with
  | num value => exact .inl rfl
  | roll counter face => exact .inl rfl
  | binary operator left right =>
      cases bare : operator.standsBareIn outer with
      | true => exact .inr ⟨operator, left, right, rfl, bare⟩
      | false => exact .inl (renderIn_eq_of_closed bare)

/-- Operators of one level print their operands alike. -/
theorem renderIn_congr {first second : Operator} (same : first.level = second.level)
    (expr : Expr) : renderIn (some first) expr = renderIn (some second) expr := by
  have strength : first.precedence = second.precedence := by
    cases first <;> cases second <;> first | rfl | exact absurd same (by decide)
  cases expr with
  | num value => rfl
  | roll counter face => rfl
  | binary operator left right =>
      rw [renderIn, renderIn, Operator.standsBareIn, Operator.standsBareIn, strength]

/-- Nothing stands bare in an operation that stands bare itself. -/
theorem renderIn_of_bare {outer : Option Operator} {operator : Operator}
    (bare : operator.standsBareIn outer = true) (expr : Expr) :
    renderIn (some operator) expr = renderIn none expr := by
  rcases renderIn_cases (some operator) expr with alone | ⟨inner, left, right, rfl, insideBare⟩
  · exact alone
  · cases outer with
    | none => exact absurd bare (by simp [Operator.standsBareIn])
    | some outer =>
        have outerBound := outer.precedence_bounds
        have innerBound := inner.precedence_bounds
        simp only [Operator.standsBareIn, decide_eq_true_eq] at bare insideBare
        omega

/-- As an operand of the surrounding operator, an expression is told apart from every other one in
front of texts that end them. -/
def Distinct (outer : Option Operator) (expr : Expr) : Prop :=
  ∀ other rest later, Ends (printedLevel outer) rest → Ends (printedLevel outer) later →
    renderIn outer expr ++ rest = renderIn outer other ++ later → expr = other ∧ rest = later

/-- A number is no roll, because no letter follows its digits. -/
theorem num_append_ne_roll {value : Int64} {counter face : UInt32} {level : Level}
    {rest later : List Char} (ends : Ends level rest) :
    renderIn none (.num value) ++ rest ≠ renderIn none (.roll counter face) ++ later := by
  intro same
  have isNatural : Text.natural counter.toNat = Text.integer counter.toNat := by
    rw [Text.integer, if_neg (by omega), Int.natAbs_natCast]
  rw [renderIn, renderIn, isNatural, List.append_assoc, List.cons_append] at same
  obtain ⟨-, after⟩ := Text.integer_append_inj ends.noDigit (stops_letter _) same
  exact ends.noLetter (after ▸ rfl)

/-- A leaf has no parentheses around it. -/
theorem leaf_append_ne_opening {rest later : List Char} :
    (∀ value, renderIn none (.num value) ++ rest ≠ '(' :: later) ∧
      ∀ counter face, renderIn none (.roll counter face) ++ rest ≠ '(' :: later := by
  refine ⟨fun value same => ?_, fun counter face same => ?_⟩
  · rw [renderIn, Text.integer] at same
    split at same
    · exact absurd (List.cons.inj same).1 (by decide)
    · exact Text.natural_append_ne (by decide) same
  · rw [renderIn, List.append_assoc] at same
    exact Text.natural_append_ne (by decide) same

theorem distinct_num (value : Int64) : Distinct none (.num value) := by
  intro other rest later restEnds laterEnds same
  cases other with
  | num other =>
      obtain ⟨sameValue, after⟩ :=
        Text.integer_append_inj restEnds.noDigit laterEnds.noDigit same
      exact ⟨congrArg Formula.num (Int64.toInt_inj.mp sameValue), after⟩
  | roll counter face => exact absurd same (num_append_ne_roll restEnds)
  | binary operator left right =>
      rw [renderIn_none_append] at same
      exact absurd same (leaf_append_ne_opening.1 value)

theorem distinct_roll (counter face : UInt32) : Distinct none (.roll counter face) := by
  intro other rest later restEnds laterEnds same
  cases other with
  | num other => exact absurd same.symm (num_append_ne_roll laterEnds)
  | roll otherCounter otherFace =>
      simp only [renderIn, List.append_assoc, List.cons_append] at same
      obtain ⟨sameCounter, afterCounter⟩ :=
        Text.natural_append_inj (stops_letter _) (stops_letter _) same
      obtain ⟨sameFace, after⟩ := Text.natural_append_inj restEnds.noDigit laterEnds.noDigit
        (List.cons.inj afterCounter).2
      rw [UInt32.toNat_inj] at sameCounter sameFace
      rw [sameCounter, sameFace]
      exact ⟨rfl, after⟩
  | binary operator left right =>
      rw [renderIn_none_append] at same
      exact absurd same (leaf_append_ne_opening.2 counter face)

/-- Operations of one level are told apart if their operands are. -/
theorem operation_inj {first second : Operator} {left right otherLeft otherRight : Expr}
    {rest later : List Char} (leftDistinct : Distinct (some first) left)
    (rightDistinct : Distinct (some first) right) (level : first.level = second.level)
    (restEnds : Ends (printedLevel (some first)) rest)
    (laterEnds : Ends (printedLevel (some first)) later)
    (same : renderIn (some first) left ++ first.symbol :: (renderIn (some first) right ++ rest) =
      renderIn (some second) otherLeft ++
        second.symbol :: (renderIn (some second) otherRight ++ later)) :
    (.binary first left right : Expr) = .binary second otherLeft otherRight ∧ rest = later := by
  have symbolEnds := ends_symbol second (renderIn (some second) otherRight ++ later)
  rw [← printedLevel_congr level] at symbolEnds
  rw [← renderIn_congr level otherLeft] at same
  obtain ⟨rfl, afterLeft⟩ := leftDistinct _ _ _ (ends_symbol first _) symbolEnds same
  obtain ⟨symbol, afterSymbol⟩ := List.cons.inj afterLeft
  obtain rfl := Operator.symbol_injective symbol
  obtain ⟨rfl, after⟩ := rightDistinct _ _ _ restEnds laterEnds afterSymbol
  exact ⟨rfl, after⟩

/-- A bare operation is told apart if its operands are. -/
theorem distinct_bare {outer : Option Operator} {operator : Operator} {left right : Expr}
    (bare : operator.standsBareIn outer = true) (leftDistinct : Distinct (some operator) left)
    (rightDistinct : Distinct (some operator) right) :
    Distinct outer (.binary operator left right) := by
  intro other rest later restEnds laterEnds same
  have below := printedLevel_below operator
  rw [printedLevel_of_bare bare] at restEnds laterEnds
  rw [renderIn_bare_append bare] at same
  rcases renderIn_cases outer other with alone | ⟨second, otherLeft, otherRight, rfl, otherBare⟩
  · -- The other expression would end at the symbol, which continues it.
    rw [alone, ← renderIn_of_bare bare] at same
    obtain ⟨-, after⟩ :=
      leftDistinct _ _ _ (ends_symbol operator _) (laterEnds.of_below below) same
    exact absurd after.symm laterEnds.ne_symbol
  · have level := (printedLevel_of_bare bare).symm.trans (printedLevel_of_bare otherBare)
    rw [renderIn_bare_append otherBare] at same
    exact operation_inj leftDistinct rightDistinct level (restEnds.of_below below)
      (laterEnds.of_below below) same

/-- An expression that is printed as if it stood alone is told apart as an operand too. -/
theorem Distinct.closed {outer : Option Operator} {expr : Expr} (distinct : Distinct none expr)
    (alone : renderIn outer expr = renderIn none expr) : Distinct outer expr := by
  intro other rest later restEnds laterEnds same
  rw [alone] at same
  rcases renderIn_cases outer other with alone | ⟨operator, left, right, rfl, bare⟩
  · rw [alone] at same
    exact distinct other rest later restEnds.atom laterEnds.atom same
  · -- A bare operation that starts with the expression goes on with a symbol.
    rw [renderIn_bare_append bare, renderIn_of_bare bare left] at same
    have symbolEnds := ends_symbol operator (renderIn (some operator) right ++ later)
    obtain ⟨-, after⟩ := distinct left rest _ restEnds.atom symbolEnds.atom same
    rw [printedLevel_of_bare bare] at restEnds
    exact absurd after restEnds.ne_symbol

/-- An operation in parentheses is told apart if its operands are. The other operation may be of
another level: then the looser one has an operand that looks like the whole of the tighter one, and
that ends at a symbol for one of them and at the closing parenthesis for the other. -/
theorem distinct_parenthesised {operator : Operator} {left right : Expr}
    (leftDistinct : Distinct (some operator) left)
    (rightDistinct : Distinct (some operator) right) :
    Distinct none (.binary operator left right) := by
  intro other rest later restEnds laterEnds same
  rw [renderIn_none_append] at same
  cases other with
  | num value => exact absurd same.symm (leaf_append_ne_opening.1 value)
  | roll counter face => exact absurd same.symm (leaf_append_ne_opening.2 counter face)
  | binary second otherLeft otherRight =>
      rw [renderIn_none_append] at same
      have inside := (List.cons.inj same).2
      cases tighter : second.standsBareIn (some operator) with
      | true =>
          rw [← renderIn_bare_append tighter] at inside
          obtain ⟨-, after⟩ :=
            leftDistinct _ _ _ (ends_symbol operator _) (ends_closing _ later) inside
          exact absurd (List.cons.inj after).1 operator.symbol_ne_closing
      | false =>
          cases looser : operator.standsBareIn (some second) with
          | true =>
              have distinct := distinct_bare looser leftDistinct rightDistinct
              rw [← renderIn_bare_append looser] at inside
              obtain ⟨-, after⟩ :=
                distinct _ _ _ (ends_closing _ rest) (ends_symbol second _) inside
              exact absurd (List.cons.inj after).1.symm second.symbol_ne_closing
          | false =>
              have level := Operator.level_eq_of_closed looser tighter
              obtain ⟨same, after⟩ := operation_inj leftDistinct rightDistinct level
                (ends_closing _ rest) (ends_closing _ later) inside
              exact ⟨same, (List.cons.inj after).2⟩

/-- Every expression is told apart wherever it stands. -/
theorem distinct (expr : Expr) (outer : Option Operator) : Distinct outer expr := by
  induction expr generalizing outer with
  | num value => exact (distinct_num value).closed rfl
  | roll counter face => exact (distinct_roll counter face).closed rfl
  | binary operator left right leftDistinct rightDistinct =>
      have inside := leftDistinct (some operator)
      have insideRight := rightDistinct (some operator)
      cases bare : operator.standsBareIn outer with
      | true => exact distinct_bare bare inside insideRight
      | false =>
          have alone := distinct_parenthesised inside insideRight
          exact alone.closed (renderIn_eq_of_closed bare)

/-- Printing is unambiguous: expressions of any depth, with any literals, counters and faces, are
printed alike only if they are the same. -/
theorem render_inj (first second : Expr) : render first = render second ↔ first = second := by
  refine ⟨fun same => ?_, congrArg render⟩
  have texts : renderIn none first ++ [] = renderIn none second ++ [] := by
    rw [List.append_nil, List.append_nil]
    exact String.ofList_injective same
  exact (distinct first none second [] [] (ends_nil _) (ends_nil _) texts).1

end Expr

end DiceChat
