import DiceChat.Proofs.Message.Evaluable

/-!
This file relates the entities of a message to the pieces they are made of. Each entity covers the
text of its own piece, and an expression among the pieces was read by the expression rule, is not a
bare number and is written by its own source.
-/

namespace DiceChat

open Grammar

/-- What holds of plain text and of every piece that a rule reads holds of all pieces. -/
theorem forall_mem_pieces {rules : List Rule} {holds : Piece → Prop}
    (plain : ∀ text, holds (.plain text))
    (read : ∀ rule ∈ rules, ∀ input piece rest, rule.read input = some (piece, rest) →
      holds piece) (source : List Char) : ∀ piece ∈ pieces rules source, holds piece := by
  induction source using firstPiece_induction rules with
  | last input missing =>
      intro piece member
      rw [pieces, readPieces_of_none missing] at member
      cases input with
      | nil => exact absurd member List.not_mem_nil
      | cons first others =>
          change piece ∈ [Piece.plain (first :: others)] at member
          exact List.mem_singleton.mp member ▸ plain _
  | step input piece rest found ih =>
      obtain ⟨rule, member, isRead⟩ := List.exists_of_findSome?_eq_some found
      rw [pieces_of_some found]
      exact List.forall_mem_cons.mpr ⟨read rule member input piece rest isRead, ih⟩

/-- Only the expression rule reads expressions, and it leaves bare numbers alone. -/
theorem Rule.expression_of_read {rule : Rule} {input rest : List Char} {piece : Piece}
    {written : WrittenExpr} (read : rule.read input = some (piece, rest))
    (marked : piece.mark = .expr written) : rule = .expression ∧ written.isNum = false := by
  have unmarked {Found : Type} {make : Found → Piece × List Char} {found : Option Found}
      (isMade : found.map make = some (piece, rest))
      (other : ∀ value, (make value).1.mark ≠ .expr written) : False := by
    obtain ⟨value, -, same⟩ := Option.map_eq_some_iff.mp isMade
    exact other value (same ▸ marked)
  cases rule with
  | strong => exact (unmarked read fun _ => by simp).elim
  | link => exact (unmarked read fun _ => by simp).elim
  | autoUrl => exact (unmarked read fun _ => by simp).elim
  | span => exact (unmarked read fun _ => by simp [Piece.plain]).elim
  | expression =>
      refine ⟨rfl, ?_⟩
      rw [Rule.read, Rule.readExpression] at read
      split at read
      · dsimp only at read
        split at read
        · exact absurd read (by simp)
        · obtain ⟨rfl, -⟩ := Prod.mk.injEq .. ▸ Option.some.inj read
          exact absurd marked (by simp [Piece.plain])
      · exact absurd read (by simp)
      · split at read
        · exact absurd read (by simp)
        · rename_i dice
          obtain ⟨rfl, -⟩ := Prod.mk.injEq .. ▸ Option.some.inj read
          simpa [← Mark.expr.inj marked] using dice

/-- An expression among the pieces of a source was read by the expression rule and is not a bare
number. -/
theorem expression_of_mem_pieces (rules : List Rule) (source : List Char) :
    ∀ piece ∈ pieces rules source, ∀ written, piece.mark = .expr written →
      .expression ∈ rules ∧ written.isNum = false := by
  apply forall_mem_pieces
  · intro text written marked
    exact absurd marked (by simp [Piece.plain])
  · intro rule tried input piece rest read written marked
    obtain ⟨rfl, dice⟩ := Rule.expression_of_read read marked
    exact ⟨tried, dice⟩

/-- An expression among the pieces that a message shows was read by the expression rule. It is not
a bare number, and its source writes it and is its text. -/
theorem expression_of_mem_mergedPieces {rules : List Rule} {source : List Char} {piece : Piece}
    {written : WrittenExpr} (member : piece ∈ mergedPieces rules source)
    (marked : piece.mark = .expr written) :
    .expression ∈ rules ∧ written.isNum = false ∧ piece.text = piece.source ∧
      Written .sum maxExprDepth written piece.source := by
  have faithful := mergedPieces_faithful rules source piece member
  have spelled := faithful.spelled 0
  rw [marked] at spelled
  have notPlain : piece.isPlain = false := by simp [Piece.isPlain, marked]
  have isPiece := (mem_mergePlain_of_marked notPlain (pieces rules source)).mp member
  obtain ⟨tried, dice⟩ := expression_of_mem_pieces rules source piece isPiece written marked
  exact ⟨tried, dice, spelled.symm, faithful.writes written marked⟩

/-- The expression rule is tried only if expressions are on. -/
theorem parseExpr_of_mem_active {env : Env} {source : List Char}
    (tried : .expression ∈ Rule.active env source) : env.parseExpr = true := by
  have kept := (List.mem_filter.mp tried).2
  exact (Bool.and_eq_true_iff.mp kept).1

/-- A body is an expression exactly if its mark is one. -/
theorem Mark.kind_body_eq_expr {mark : Mark} {face : UInt32} :
    (mark.body face).kind = .expr ↔ ∃ written, mark = .expr written := by
  cases mark <;> simp [Mark.body, EntityBody.kind]

/-- A covered text has the length of its range. -/
theorem Entity.units_slice {entity : Entity} {text covered : List Char}
    (found : entity.slice text = some covered) : Text.units covered = entity.offset.toNat := by
  rw [slice, Option.bind_eq_bind, Option.bind_eq_some_iff] at found
  obtain ⟨⟨before, rest⟩, -, inside⟩ := found
  obtain ⟨⟨part, after⟩, isCut, same⟩ := Option.bind_eq_some_iff.mp inside
  obtain rfl : part = covered := Option.some.inj same
  exact ((Text.cutUnits_eq_some _ _ _ _).mp isCut).2

/-- An entity is made of a piece if it covers the text of the piece and has its body. -/
structure Entity.MadeOf (face : UInt32) (text : List Char) (entity : Entity) (piece : Piece) :
    Prop where
  slice : entity.slice text = some piece.text
  body : entity.body = piece.mark.body face

/-- Two lists show the same if and only if they do so in pairs. -/
theorem map_eq_map_iff_forall₂ {First Second Value : Type} {view : First → Value}
    {other : Second → Value} {firsts : List First} {seconds : List Second} :
    firsts.map view = seconds.map other ↔
      List.Forall₂ (fun first second => view first = other second) firsts seconds := by
  rw [← List.forall₂_eq_eq_eq, List.forall₂_map_left_iff, List.forall₂_map_right_iff]

/-- The entities of a message are made of its merged pieces, one of each. -/
theorem parse_madeOf (env : Env) (source : String) (short : source.utf8ByteSize < 2 ^ 63) :
    List.Forall₂ (Entity.MadeOf env.defaultFace (parse env source).text.toList)
      (parse env source).entities
      (mergedPieces (Rule.active env source.toList) source.toList) := by
  let rules := Rule.active env source.toList
  have slices := slice_of_tiles (mergedPieces_tile rules env.defaultFace source short) [] rfl
  rw [List.nil_append, ← List.flatMap_def, List.forall₂_map_right_iff] at slices
  have bodies := map_eq_map_iff_forall₂.mp
    (layout_map_body env.defaultFace 0 (mergedPieces rules source.toList))
  rw [parse, parseWith_eq_layout, String.toList_ofList]
  exact slices.mp (fun _ _ isSlice isBody => ⟨isSlice, isBody⟩) bodies

/-- Every entity of a message is made of a piece. -/
theorem exists_madeOf (env : Env) (source : String) (short : source.utf8ByteSize < 2 ^ 63)
    {entity : Entity} (member : entity ∈ (parse env source).entities) :
    ∃ piece ∈ mergedPieces (Rule.active env source.toList) source.toList,
      entity.MadeOf env.defaultFace (parse env source).text.toList piece := by
  have made := parse_madeOf env source short
  obtain ⟨index, inside, rfl⟩ := List.getElem_of_mem member
  have alsoInside := made.length_eq ▸ inside
  exact ⟨_, List.getElem_mem alsoInside, made.get inside alsoInside⟩

end DiceChat
