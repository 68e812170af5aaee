import DiceChat.Proofs.Dice.Diceless
import DiceChat.Proofs.Markup.PlainStep
import DiceChat.Proofs.Message.Merging
import DiceChat.Proofs.Message.Triggers

/-!
This file is about the places where brackets are too deep although the source has no dice. The
expression rule makes one text of the run of tokens there. Without that rule the others read on
inside the run, and the result is the same text as long as they find no markup.
-/

namespace DiceChat

open Grammar Markup

/-- The expression rule keeps a run of tokens as text here, if it is tried. -/
def FallsBack (input : List Char) : Prop :=
  link input = none ∧ Grammar.expr maxExprDepth input = .tooDeep

/-- A symbol is neither a digit nor space, and it starts no address. -/
theorem isSymbol_facts {character : Char} (symbol : isSymbol character = true) :
    character.isDigit = false ∧ Text.isChatSpace character = false ∧ character ≠ 'h' := by
  rcases isSymbol_cases symbol with
    rfl | rfl | rfl | rfl | rfl | rfl | rfl | rfl | rfl | rfl | rfl | rfl <;>
    decide

/-- Symbols and space are no digits and start no address. -/
theorem symbol_or_space_facts {character : Char}
    (symbol : isSymbol character = true ∨ Text.isChatSpace character = true) :
    character.isDigit = false ∧ character ≠ 'h' := by
  rcases symbol with symbol | space
  · obtain ⟨notDigit, -, notScheme⟩ := isSymbol_facts symbol
    exact ⟨notDigit, notScheme⟩
  · refine ⟨Text.isDigit_of_isChatSpace space, ?_⟩
    intro letter
    subst letter
    exact absurd space (by decide)

/-- No rule for markup matches where none of the three recognisers does. -/
theorem firstPiece_markup_eq_none {input : List Char} : firstPiece Rule.markup input = none ↔
    strong input = none ∧ link input = none ∧ url input = none := by
  simp [firstPiece, Rule.markup, Rule.read]

/-- An address starts with its first letter. -/
theorem url_eq_none_of_head {first : Char} {others : List Char} (head : first ≠ 'h') :
    url (first :: others) = none := by
  cases found : url (first :: others) with
  | none => rfl
  | some address =>
      obtain ⟨later, whole⟩ := url_head found
      exact absurd (List.cons.injEq .. ▸ whole).1 head

/-- Strong text starts with its first star. -/
theorem strong_eq_none_of_head {first : Char} {others : List Char} (head : first ≠ '*') :
    strong (first :: others) = none := by
  cases found : strong (first :: others) with
  | none => rfl
  | some content =>
      obtain ⟨whole, -⟩ := strong_split found
      exact absurd (List.cons.injEq .. ▸ whole).1 head

/-- The rules without expressions try markup and then plain text. -/
theorem firstPiece_withoutExpression (input : List Char) :
    firstPiece Rule.withoutExpression input =
      (firstPiece Rule.markup input).or (Rule.span.read input) := by
  rw [firstPiece, Rule.withoutExpression, List.findSome?_append]
  simp [firstPiece]

/-- All rules try markup, then expressions, then plain text. -/
theorem firstPiece_all (input : List Char) : firstPiece Rule.all input =
    (firstPiece Rule.markup input).or
      ((Rule.readExpression input).or (Rule.span.read input)) := by
  have rules : Rule.all = Rule.markup ++ [.expression, .span] := rfl
  rw [firstPiece, rules, List.findSome?_append]
  cases read : Rule.readExpression input <;> simp [firstPiece, Rule.read, read]

/-- An expression that takes all of a text is its first piece, if no markup starts there. -/
theorem firstPiece_of_expr {text : List Char} {value : WrittenExpr}
    (noMarkup : firstPiece Rule.markup text = none)
    (found : Grammar.expr maxExprDepth text = .read value []) (dice : value.isNum = false) :
    firstPiece Rule.all text = some (⟨text, text, .expr value⟩, []) := by
  have whole := Text.before_append text []
  rw [List.append_nil] at whole
  have read : Rule.readExpression text = some (⟨text, text, .expr value⟩, []) := by
    rw [Rule.readExpression, found]
    simp [dice, whole]
  rw [firstPiece_all, noMarkup, read]
  rfl

/-- A place that falls back starts with a bracket, so no rule for markup matches there. -/
theorem FallsBack.markup_eq_none {input : List Char} (diceless : Diceless input)
    (falls : FallsBack input) : firstPiece Rule.markup input = none := by
  obtain ⟨opening, closing, rest, rfl, closes⟩ := bracket_of_tooDeep diceless falls.2
  have other : opening ≠ '*' ∧ opening ≠ 'h' := by
    rcases opening_cases closes with rfl | rfl | rfl <;> decide
  rw [firstPiece_markup_eq_none]
  exact ⟨strong_eq_none_of_head other.1, falls.1, url_eq_none_of_head other.2⟩

/-- A place that falls back has a run of tokens. -/
theorem FallsBack.tokenRun_ne_nil {input : List Char} (diceless : Diceless input)
    (falls : FallsBack input) : tokenRun input ≠ [] := by
  obtain ⟨opening, closing, rest, rfl, closes⟩ := bracket_of_tooDeep diceless falls.2
  have found : token (opening :: rest) = some rest := by
    rcases opening_cases closes with rfl | rfl | rfl <;> rfl
  have split : opening :: rest = [opening] ++ rest := rfl
  rw [tokenRun_of_token found split]
  exact List.cons_ne_nil opening _

/-- All rules read the run of tokens at a place that falls back. -/
theorem FallsBack.firstPiece_eq {input : List Char} (diceless : Diceless input)
    (falls : FallsBack input) :
    firstPiece Rule.all input = some (.plain (tokenRun input), afterTokens input) := by
  have kept : Rule.readExpression input = some (.plain (tokenRun input), afterTokens input) := by
    rw [Rule.readExpression, falls.2]
    exact if_neg (falls.tokenRun_ne_nil diceless)
  rw [firstPiece_all, falls.markup_eq_none diceless, kept]
  rfl

/-- In a source without dice all rules find the same piece as the rules without expressions,
except at a place that falls back. -/
theorem firstPiece_cases {input rest : List Char} {piece : Piece} (diceless : Diceless input)
    (found : firstPiece Rule.all input = some (piece, rest)) :
    (¬ FallsBack input ∧ firstPiece Rule.withoutExpression input = some (piece, rest)) ∨
      (FallsBack input ∧ piece = .plain (tokenRun input) ∧ rest = afterTokens input) := by
  by_cases falls : FallsBack input
  · rw [falls.firstPiece_eq diceless] at found
    obtain ⟨rfl, rfl⟩ := Prod.mk.injEq .. ▸ Option.some.inj found
    exact .inr ⟨falls, rfl, rfl⟩
  · refine .inl ⟨falls, ?_⟩
    rw [firstPiece_all] at found
    rw [firstPiece_withoutExpression]
    cases marked : firstPiece Rule.markup input with
    | some result => rwa [marked, Option.some_or] at found
    | none =>
        rw [marked, Option.none_or] at found
        rw [Option.none_or]
        cases read : Grammar.expr maxExprDepth input with
        | tooDeep => exact absurd ⟨(firstPiece_markup_eq_none.mp marked).2.1, read⟩ falls
        | failed =>
            have missing : Rule.readExpression input = none := by rw [Rule.readExpression, read]
            rwa [missing, Option.none_or] at found
        | read value later =>
            exact absurd read ((exprWithin_sound maxExprDepth).ne_read diceless _ value later)

/-- The pieces of markup are not plain. -/
theorem isPlain_of_markup {input rest : List Char} {piece : Piece}
    (found : firstPiece Rule.markup input = some (piece, rest)) : piece.isPlain = false := by
  obtain ⟨rule, member, read⟩ := List.exists_of_findSome?_eq_some found
  have cases : rule = .strong ∨ rule = .link ∨ rule = .autoUrl := by
    simpa [Rule.markup] using member
  rcases cases with rfl | rfl | rfl
  all_goals
    obtain ⟨_, -, pair⟩ := Option.map_eq_some_iff.mp read
    obtain ⟨rfl, -⟩ := Prod.mk.injEq .. ▸ pair
    rfl

/-- Where no markup starts, the rules without expressions read a plain step. -/
theorem pieces_of_plainStep {step rest : List Char} (isStep : PlainStep step rest)
    (noMarkup : firstPiece Rule.markup (step ++ rest) = none) :
    pieces Rule.withoutExpression (step ++ rest) =
      .plain step :: pieces Rule.withoutExpression rest := by
  have found := (plain_eq_some_iff _ _ _).mpr ⟨rfl, isStep⟩
  apply pieces_of_some
  rw [firstPiece_withoutExpression, noMarkup, Option.none_or, Rule.read]
  exact congrArg (Option.map _) found

/-- A bare front has symbols and space only, and neither strong text nor a link starts in it. -/
structure Bare (front later : List Char) : Prop where
  symbols : ∀ character ∈ front, isSymbol character = true ∨ Text.isChatSpace character = true
  unmarked : ∀ early rest, front ++ later = early ++ rest → early.length < front.length →
    strong rest = none ∧ link rest = none

/-- A bare front starts with a plain step. -/
theorem Bare.pieces_eq {front later : List Char} (filled : front ≠ []) (bare : Bare front later) :
    ∃ step rest, front ++ later = step ++ rest ∧ PlainStep step rest ∧
      pieces Rule.withoutExpression (front ++ later) =
        .plain step :: pieces Rule.withoutExpression rest := by
  obtain ⟨first, others, rfl⟩ := List.exists_cons_of_ne_nil filled
  obtain ⟨-, notScheme⟩ := symbol_or_space_facts (bare.symbols first List.mem_cons_self)
  obtain ⟨noStrong, noLink⟩ := bare.unmarked [] (first :: others ++ later) rfl (by simp)
  have noMarkup : firstPiece Rule.markup (first :: others ++ later) = none :=
    firstPiece_markup_eq_none.mpr ⟨noStrong, noLink, url_eq_none_of_head notScheme⟩
  obtain ⟨step, rest, whole, isStep⟩ := exists_plainStep (List.cons_ne_nil first (others ++ later))
  refine ⟨step, rest, whole, isStep, ?_⟩
  rw [List.cons_append, whole]
  exact pieces_of_plainStep isStep (whole ▸ noMarkup)

/-- A bare front is bare behind each of its parts. -/
theorem Bare.of_append {early front later : List Char} (bare : Bare (early ++ front) later) :
    Bare front later := by
  refine ⟨fun character member => bare.symbols character (List.mem_append_right early member), ?_⟩
  intro before rest whole shorter
  apply bare.unmarked (early ++ before) rest
  · rw [List.append_assoc, whole, List.append_assoc]
  · simpa using shorter

/-- A bare front is read as plain text, up to the end of a step that reaches over its end. -/
theorem Bare.pieces_through {front later : List Char} (filled : front ≠ [])
    (bare : Bare front later) :
    ∃ extra rest, later = extra ++ rest ∧ Overhang front extra rest ∧
      mergePlain (pieces Rule.withoutExpression (front ++ later)) =
        mergePlain (.plain (front ++ extra) :: pieces Rule.withoutExpression rest) := by
  induction size : front.length using Nat.strongRecOn generalizing front with
  | ind bound ih =>
      obtain ⟨step, rest, whole, isStep, read⟩ := bare.pieces_eq filled
      have notDigit (character : Char) (member : character ∈ front) :
          character.isDigit = false := (symbol_or_space_facts (bare.symbols character member)).1
      -- The step either reaches the end of the front or leaves a shorter front.
      rcases List.append_eq_append_iff.mp whole with ⟨extra, rfl, split⟩ | ⟨left, rfl, rfl⟩
      · exact ⟨extra, rest, split, isStep.overhang filled notDigit, by rw [read]⟩
      · by_cases empty : left = []
        · rw [empty, List.append_nil] at filled notDigit
          rw [empty] at read
          have whole : PlainStep (step ++ []) later := by simpa [empty] using isStep
          exact ⟨[], later, rfl, by simpa [empty] using whole.overhang filled notDigit,
            by simpa [empty] using congrArg mergePlain read⟩
        · have shorter : left.length < bound := by
            have taken := List.length_pos_iff.mpr isStep.ne_nil
            rw [List.length_append] at size
            omega
          obtain ⟨extra, rest, split, hang, merged⟩ :=
            ih left.length shorter empty bare.of_append rfl
          refine ⟨extra, rest, split, ⟨hang.isStep, hang.bare, ?_⟩, ?_⟩
          · rw [List.getLast?_append_of_ne_nil step empty]
            exact hang.stops
          · rw [read, mergePlain_cons, merged, ← mergePlain_cons, mergePlain_plain,
              List.append_assoc]

/-- A bare front merges to one text of its own, if no markup follows or it starts with an opener. -/
theorem Bare.mergePlain_eq {front later : List Char} (filled : front ≠ [])
    (bare : Bare front later)
    (stands : firstPiece Rule.markup later = none ∨
      ∃ first others, later = first :: others ∧ isOpener first = true) :
    mergePlain (pieces Rule.withoutExpression (front ++ later)) =
      mergePlain (.plain front :: pieces Rule.withoutExpression later) := by
  obtain ⟨extra, rest, rfl, hang, merged⟩ := bare.pieces_through filled
  by_cases empty : extra = []
  · rw [merged, empty, List.append_nil, List.nil_append]
  · have isStep := hang.isStep empty
    have noMarkup : firstPiece Rule.markup (extra ++ rest) = none := by
      rcases stands with missing | ⟨first, others, whole, opener⟩
      · exact missing
      · obtain ⟨next, more, rfl⟩ := List.exists_cons_of_ne_nil empty
        obtain ⟨rfl, -⟩ := List.cons.injEq .. ▸ whole
        exact absurd (hang.bare next List.mem_cons_self) (by simp [opener])
    rw [merged, pieces_of_plainStep isStep noMarkup, mergePlain_plain]

end DiceChat
