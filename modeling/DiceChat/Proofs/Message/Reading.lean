import DiceChat.Message.Parse
import DiceChat.Proofs.Dice.Tokens
import DiceChat.Proofs.Markup.Address
import DiceChat.Proofs.Markup.Delimited
import DiceChat.Proofs.Markup.PlainStep

/-!
This file follows the source of a message through the rules and the loop over them. Every piece
takes a front of the remaining source that spells its text in the way of its mark, so the pieces
of a message spell its whole source.
-/

namespace DiceChat

/-- This is how the source of an entity spells the text that the entity covers. -/
def EntityBody.Spells (covered chunk : List Char) : EntityBody → Prop
  | .text => chunk = covered
  | .strong => chunk = ['*', '*'] ++ covered ++ ['*', '*']
  | .link href =>
      (chunk = covered ∧ href.toList = covered) ∨
        chunk = ['['] ++ covered ++ [']', '('] ++ href.toList ++ [')']
  | .expr _ => chunk = covered

/-- A faithful piece has some text, and its source spells it. The source of an expression writes it
within the budget of the reader. -/
structure Piece.Faithful (piece : Piece) : Prop where
  filled : piece.text ≠ []
  spelled : ∀ face, (piece.mark.body face).Spells piece.text piece.source
  writes : ∀ written, piece.mark = .expr written →
    Grammar.Written .sum maxExprDepth written piece.source

/-- Plain text spells itself. -/
theorem Piece.plain_faithful {text : List Char} (filled : text ≠ []) :
    (Piece.plain text).Faithful :=
  ⟨filled, fun _ => rfl, nofun⟩

/-- The text of a faithful piece has at most the code units of its source. -/
theorem Piece.Faithful.units_le {piece : Piece} (faithful : piece.Faithful) :
    Text.units piece.text ≤ Text.units piece.source := by
  have spelled := faithful.spelled 0
  revert spelled
  cases piece.mark with
  | text => exact fun same => by rw [show piece.source = piece.text from same]
  | strong =>
      intro (same : piece.source = _)
      rw [same, Text.units_append, Text.units_append]
      omega
  | link href =>
      intro spelled
      rcases spelled with ⟨same, -⟩ | same
      · rw [same]
      · rw [same, Text.units_append, Text.units_append, Text.units_append, Text.units_append]
        omega
  | expr written => exact fun same => by rw [show piece.source = piece.text from same]

/-- The expression rule takes a front of the source and keeps it as text. -/
theorem readExpression_split {input rest : List Char} {piece : Piece}
    (found : Rule.readExpression input = some (piece, rest)) :
    input = piece.source ++ rest ∧ piece.Faithful := by
  unfold Rule.readExpression at found
  split at found
  · dsimp only at found
    split at found
    · exact absurd found (by simp)
    · rename_i filled
      obtain ⟨rfl, rfl⟩ := Prod.mk.injEq .. ▸ Option.some.inj found
      exact ⟨(Grammar.tokenRun_append input).symm, Piece.plain_faithful filled⟩
  · exact absurd found (by simp)
  · rename_i written later isRead
    split at found
    · exact absurd found (by simp)
    · obtain ⟨rfl, rfl⟩ := Prod.mk.injEq .. ▸ Option.some.inj found
      obtain ⟨text, rfl, isWritten⟩ := Grammar.expr_written isRead
      rw [Text.before_append]
      refine ⟨rfl, isWritten.ne_nil, fun _ => rfl, fun value same => ?_⟩
      rwa [← Mark.expr.inj same]

/-- Every rule takes a front of the source that spells its piece. -/
theorem Rule.read_split {rule : Rule} {input rest : List Char} {piece : Piece}
    (found : rule.read input = some (piece, rest)) :
    input = piece.source ++ rest ∧ piece.Faithful := by
  cases rule with
  | strong =>
      obtain ⟨⟨content, later⟩, isStrong, pair⟩ := Option.map_eq_some_iff.mp found
      obtain ⟨rfl, rfl⟩ := Prod.mk.injEq .. ▸ pair
      obtain ⟨whole, filled, -⟩ := Markup.strong_split isStrong
      have shape : input = (['*', '*'] ++ content ++ ['*', '*']) ++ later := by simp [whole]
      rw [shape, Text.before_append]
      exact ⟨rfl, filled, fun _ => rfl, nofun⟩
  | link =>
      obtain ⟨⟨shown, later⟩, isLink, pair⟩ := Option.map_eq_some_iff.mp found
      obtain ⟨rfl, rfl⟩ := Prod.mk.injEq .. ▸ pair
      obtain ⟨whole, ⟨filled, -⟩, -⟩ := Markup.link_split isLink
      have shape : input =
          (['['] ++ shown.title ++ [']', '('] ++ shown.href ++ [')']) ++ later := by simp [whole]
      rw [shape, Text.before_append]
      exact ⟨rfl, filled, fun _ => .inr (by simp), nofun⟩
  | autoUrl =>
      obtain ⟨⟨address, later⟩, isUrl, pair⟩ := Option.map_eq_some_iff.mp found
      obtain ⟨rfl, rfl⟩ := Prod.mk.injEq .. ▸ pair
      obtain ⟨whole, filled⟩ := Markup.url_split isUrl
      exact ⟨whole, filled, fun _ => .inl ⟨rfl, by simp⟩, nofun⟩
  | expression => exact readExpression_split found
  | span =>
      obtain ⟨⟨step, later⟩, isPlain, pair⟩ := Option.map_eq_some_iff.mp found
      obtain ⟨rfl, rfl⟩ := Prod.mk.injEq .. ▸ pair
      obtain ⟨whole, isStep⟩ := (Markup.plain_eq_some_iff _ _ _).mp isPlain
      exact ⟨whole, Piece.plain_faithful isStep.ne_nil⟩

/-- The first piece takes a front of the source. -/
theorem firstPiece_split {rules : List Rule} {input rest : List Char} {piece : Piece}
    (found : firstPiece rules input = some (piece, rest)) :
    input = piece.source ++ rest ∧ piece.Faithful := by
  obtain ⟨rule, -, read⟩ := List.exists_of_findSome?_eq_some found
  exact Rule.read_split read

/-- A faithful piece has some source. -/
theorem Piece.Faithful.source_ne_nil {piece : Piece} (faithful : piece.Faithful) :
    piece.source ≠ [] := by
  intro missing
  have bound := faithful.units_le
  rw [missing, Text.units_nil] at bound
  exact faithful.filled ((Text.measure_eq_zero Text.unitSize_positive _).mp (Nat.le_zero.mp bound))

/-- The first piece leaves less source. -/
theorem firstPiece_shorter {rules : List Rule} {input rest : List Char} {piece : Piece}
    (found : firstPiece rules input = some (piece, rest)) : rest.length < input.length := by
  obtain ⟨whole, faithful⟩ := firstPiece_split found
  have taken := List.length_pos_iff.mpr faithful.source_ne_nil
  rw [whole, List.length_append]
  omega

/-- The loop reads on after every piece. -/
theorem readPieces_of_some {rules : List Rule} {input rest : List Char} {piece : Piece}
    (found : firstPiece rules input = some (piece, rest)) :
    readPieces rules input =
      (piece :: (readPieces rules rest).1, (readPieces rules rest).2) := by
  rw [readPieces, found]
  exact if_pos (firstPiece_shorter found)

/-- The loop ends where no rule matches. -/
theorem readPieces_of_none {rules : List Rule} {input : List Char}
    (missing : firstPiece rules input = none) : readPieces rules input = ([], input) := by
  rw [readPieces, missing]

/-- A fact about every place where the loop ends, and about every place before a piece if it holds
after it, holds of every source. -/
theorem firstPiece_induction (rules : List Rule) {motive : List Char → Prop} (input : List Char)
    (last : ∀ input, firstPiece rules input = none → motive input)
    (step : ∀ input piece rest, firstPiece rules input = some (piece, rest) → motive rest →
      motive input) : motive input := by
  induction length : input.length using Nat.strongRecOn generalizing input with
  | ind length ih =>
      cases found : firstPiece rules input with
      | none => exact last input found
      | some result =>
          have shorter := firstPiece_shorter found
          exact step input result.1 result.2 found (ih _ (by omega) result.2 rfl)

/-- The loop's pieces and what they leave make up the source. -/
theorem readPieces_append (rules : List Rule) (input : List Char) :
    (readPieces rules input).1.flatMap Piece.source ++ (readPieces rules input).2 = input := by
  induction input using firstPiece_induction rules with
  | last input missing => simp [readPieces_of_none missing]
  | step input piece rest found ih =>
      rw [readPieces_of_some found, List.flatMap_cons, List.append_assoc, ih]
      exact (firstPiece_split found).1.symm

/-- The loop's pieces are faithful. -/
theorem readPieces_faithful (rules : List Rule) (input : List Char) :
    ∀ piece ∈ (readPieces rules input).1, piece.Faithful := by
  induction input using firstPiece_induction rules with
  | last input missing => simp [readPieces_of_none missing]
  | step input piece rest found ih =>
      rw [readPieces_of_some found]
      exact List.forall_mem_cons.mpr ⟨(firstPiece_split found).2, ih⟩

/-- The pieces of a source start with its first piece. -/
theorem pieces_of_some {rules : List Rule} {input rest : List Char} {piece : Piece}
    (found : firstPiece rules input = some (piece, rest)) :
    pieces rules input = piece :: pieces rules rest := by
  unfold pieces
  rw [readPieces_of_some found]
  rcases readPieces rules rest with ⟨later, left⟩
  cases left <;> rfl

/-- The loop visits every place that it reaches by reading pieces from the start. -/
inductive Visits (rules : List Rule) : List Char → List Char → Prop where
  | start (input : List Char) : Visits rules input input
  | step {input rest later : List Char} {piece : Piece}
      (found : firstPiece rules input = some (piece, rest)) (visits : Visits rules rest later) :
      Visits rules input later

/-- Plain text is tried on every source. -/
theorem span_mem_active (env : Env) (source : List Char) : .span ∈ Rule.active env source :=
  List.mem_filter.mpr ⟨by decide, rfl⟩

/-- The pieces of a source spell it. -/
theorem pieces_source (rules : List Rule) (input : List Char) :
    (pieces rules input).flatMap Piece.source = input := by
  have whole := readPieces_append rules input
  unfold pieces
  split
  · rename_i found same
    simpa [same] using whole
  · rename_i found rest _ same
    simpa [same, Piece.plain] using whole

/-- The pieces of a source are faithful. -/
theorem pieces_faithful (rules : List Rule) (input : List Char) :
    ∀ piece ∈ pieces rules input, piece.Faithful := by
  have each := readPieces_faithful rules input
  unfold pieces
  split
  · rename_i found same
    simpa [same] using each
  · rename_i found rest left same
    intro piece member
    rw [same] at each
    rcases List.mem_append.mp member with earlier | last
    · exact each piece earlier
    · rw [List.mem_singleton.mp last]
      exact Piece.plain_faithful left

end DiceChat
