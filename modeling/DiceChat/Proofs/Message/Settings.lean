import DiceChat.Proofs.Dice.Completeness
import DiceChat.Proofs.Message.Pieces

/-!
This file compares what two settings make of one source. The settings decide whether expressions are
read and which face stands in for a missing one, and nothing else. So two settings that agree on
reading expressions give the same text and the same ranges, and each expression of the one message
is the same written tree as its counterpart in the other, with another face filled in.
-/

namespace DiceChat

open Grammar

/-- A written tree is filled in with a face. Its rolls without a face have this one, and all else
stays as it is written. -/
inductive WrittenExpr.FilledIn (face : UInt32) : WrittenExpr → Expr → Prop where
  | num (value : Int64) : FilledIn face (.num value) (.num value)
  | bare (counter : UInt32) : FilledIn face (.roll counter none) (.roll counter face)
  | roll (counter sides : UInt32) : FilledIn face (.roll counter (some sides)) (.roll counter sides)
  | binary {operator : Operator} {left right : WrittenExpr} {leftNode rightNode : Expr}
      (leftFilled : FilledIn face left leftNode) (rightFilled : FilledIn face right rightNode) :
      FilledIn face (.binary operator left right) (.binary operator leftNode rightNode)

/-- Two bodies are instances of what a part of the source says. They have the same kind, and two
links the same target. Two expressions are the tree that the grammar reads from the part, filled in
with the one face and the other. -/
inductive EntityBody.Instances (firstFace secondFace : UInt32) (part : List Char) :
    EntityBody → EntityBody → Prop where
  | text : Instances firstFace secondFace part .text .text
  | strong : Instances firstFace secondFace part .strong .strong
  | link (href : String) : Instances firstFace secondFace part (.link href) (.link href)
  | expr {template : WrittenExpr} {first second : Expr}
      (reads : Reads .sum part (some (template, [])))
      (firstFilled : template.FilledIn firstFace first)
      (secondFilled : template.FilledIn secondFace second) :
      Instances firstFace secondFace part (.expr first) (.expr second)

/-- Two entities from one part of the source have the same range, and their bodies are instances of
what the part says. -/
structure Entity.Twins (firstFace secondFace : UInt32) (part : List Char)
    (pair : Entity × Entity) : Prop where
  start : pair.1.start = pair.2.start
  offset : pair.1.offset = pair.2.offset
  body : pair.1.body.Instances firstFace secondFace part pair.2.body

/-- The rules for a source depend only on whether expressions are on. -/
theorem Rule.active_congr {first second : Env} (same : first.parseExpr = second.parseExpr)
    (source : List Char) : Rule.active first source = Rule.active second source := by
  apply List.filter_congr
  intro rule _
  cases rule <;> simp [Rule.enabledIn, same]

/-- Filling a face in replaces the missing faces and keeps the tree. -/
theorem WrittenExpr.filledIn_fill (face : UInt32) (written : WrittenExpr) :
    written.FilledIn face (written.fill face) := by
  induction written with
  | num value => exact .num value
  | roll counter sides =>
      cases sides with
      | none => exact .bare counter
      | some sides => exact .roll counter sides
  | binary operator left right leftFilled rightFilled => exact .binary leftFilled rightFilled

/-- A piece gives instances of its source for any two faces. -/
theorem Mark.instances_body {piece : Piece}
    (reads : ∀ written, piece.mark = .expr written → Reads .sum piece.source (some (written, [])))
    (firstFace secondFace : UInt32) :
    (piece.mark.body firstFace).Instances firstFace secondFace piece.source
      (piece.mark.body secondFace) := by
  cases marked : piece.mark with
  | text => exact .text
  | strong => exact .strong
  | link href => exact .link (String.ofList href)
  | expr written =>
      exact .expr (reads written marked) (written.filledIn_fill _) (written.filledIn_fill _)

/-- Laying out pieces with two faces gives twins, one pair for each piece. -/
theorem layout_twins {pieces : List Piece}
    (reads : ∀ piece ∈ pieces, ∀ written, piece.mark = .expr written →
      Reads .sum piece.source (some (written, [])))
    (firstFace secondFace : UInt32) (start : Nat) :
    ∃ pairs, layout firstFace start pieces = pairs.map Prod.fst ∧
      layout secondFace start pieces = pairs.map Prod.snd ∧
      List.Forall₂ (Entity.Twins firstFace secondFace) (pieces.map Piece.source) pairs := by
  induction pieces generalizing start with
  | nil => exact ⟨[], rfl, rfl, .nil⟩
  | cons piece others ih =>
      obtain ⟨here, later⟩ := List.forall_mem_cons.mp reads
      obtain ⟨pairs, firsts, seconds, twins⟩ := ih later (start + Text.units piece.text)
      let entity (face : UInt32) : Entity :=
        ⟨UInt64.ofNat start, UInt64.ofNat (Text.units piece.text), piece.mark.body face⟩
      refine ⟨(entity firstFace, entity secondFace) :: pairs, ?_, ?_, ?_⟩
      · rw [layout, firsts, List.map_cons]
      · rw [layout, seconds, List.map_cons]
      · exact .cons ⟨rfl, rfl, Mark.instances_body here firstFace secondFace⟩ twins

/-- Pieces without expressions are laid out alike for all faces. -/
theorem layout_congr {pieces : List Piece}
    (unmarked : ∀ piece ∈ pieces, ∀ written, piece.mark ≠ .expr written)
    (firstFace secondFace : UInt32) (start : Nat) :
    layout firstFace start pieces = layout secondFace start pieces := by
  induction pieces generalizing start with
  | nil => rfl
  | cons piece others ih =>
      obtain ⟨here, later⟩ := List.forall_mem_cons.mp unmarked
      have same : piece.mark.body firstFace = piece.mark.body secondFace := by
        cases marked : piece.mark with
        | text | strong | link => rfl
        | expr written => exact absurd marked (here written)
      rw [layout, layout, same, ih later]

/-- Pieces without expressions have no expression in their layout. -/
theorem kind_ne_expr_of_mem_layout {pieces : List Piece}
    (unmarked : ∀ piece ∈ pieces, ∀ written, piece.mark ≠ .expr written) {face : UInt32}
    {start : Nat} {entity : Entity} (member : entity ∈ layout face start pieces) :
    entity.kind ≠ .expr := by
  have isBody : entity.body ∈ (layout face start pieces).map Entity.body :=
    List.mem_map.mpr ⟨entity, member, rfl⟩
  rw [layout_map_body] at isBody
  obtain ⟨piece, isPiece, same⟩ := List.mem_map.mp isBody
  rw [Entity.kind, ← same]
  intro isExpr
  obtain ⟨written, marked⟩ := Mark.kind_body_eq_expr.mp isExpr
  exact unmarked piece isPiece written marked

/-- Two settings that agree on reading expressions give messages with the same text, whose entities
are twins from the same parts of the source. Without expressions the messages are equal and have no
expression. -/
theorem parse_twins (first second : Env) (same : first.parseExpr = second.parseExpr)
    (source : String) :
    (parse first source).text = (parse second source).text ∧
      (∃ (parts : List (List Char)) (pairs : List (Entity × Entity)),
        source.toList = parts.flatten ∧
          (parse first source).entities = pairs.map Prod.fst ∧
          (parse second source).entities = pairs.map Prod.snd ∧
          List.Forall₂ (Entity.Twins first.defaultFace second.defaultFace) parts pairs) ∧
      (first.parseExpr = false → parse first source = parse second source ∧
        ∀ entity ∈ (parse first source).entities, entity.kind ≠ .expr) := by
  let rules := Rule.active first source.toList
  let merged := mergedPieces rules source.toList
  have ofFirst : parse first source =
      ⟨String.ofList (textOf merged), layout first.defaultFace 0 merged⟩ :=
    parseWith_eq_layout rules first.defaultFace source.toList
  have ofSecond : parse second source =
      ⟨String.ofList (textOf merged), layout second.defaultFace 0 merged⟩ := by
    rw [parse, ← Rule.active_congr same]
    exact parseWith_eq_layout rules second.defaultFace source.toList
  rw [ofFirst, ofSecond]
  refine ⟨rfl, ?_, ?_⟩
  · have reads (piece : Piece) (isPiece : piece ∈ merged) (written : WrittenExpr)
        (marked : piece.mark = .expr written) : Reads .sum piece.source (some (written, [])) := by
      obtain ⟨-, -, -, writes⟩ := expression_of_mem_mergedPieces isPiece marked
      exact writes.fits.reads
    obtain ⟨pairs, firsts, seconds, twins⟩ :=
      layout_twins reads first.defaultFace second.defaultFace 0
    refine ⟨merged.map Piece.source, pairs, ?_, firsts, seconds, twins⟩
    rw [← List.flatMap_def]
    exact (mergedPieces_source rules source.toList).symm
  · intro off
    have unmarked (piece : Piece) (isPiece : piece ∈ merged) (written : WrittenExpr) :
        piece.mark ≠ .expr written := by
      intro marked
      obtain ⟨tried, -⟩ := expression_of_mem_mergedPieces isPiece marked
      exact absurd (parseExpr_of_mem_active tried) (by simp [off])
    rw [layout_congr unmarked first.defaultFace second.defaultFace]
    exact ⟨rfl, fun entity member => kind_ne_expr_of_mem_layout unmarked member⟩

/-- A bare die has six faces or a hundred. The roll with a face and the link stay as they are. -/
theorem parse_twins_bare :
    (parse { defaultFace := 6 } "d + 2d8 [a](b)").entities =
        [⟨0, 7, .expr (.binary .add (.roll 1 6) (.roll 2 8))⟩, ⟨7, 1, .text⟩,
          ⟨8, 1, .link "b"⟩] ∧
      (parse { defaultFace := 100, usernameResolver := some some } "d + 2d8 [a](b)").entities =
        [⟨0, 7, .expr (.binary .add (.roll 1 100) (.roll 2 8))⟩, ⟨7, 1, .text⟩,
          ⟨8, 1, .link "b"⟩] ∧
      (parse { defaultFace := 6 } "d + 2d8 [a](b)").text =
        (parse { defaultFace := 100, usernameResolver := some some } "d + 2d8 [a](b)").text ∧
      (∃ (parts : List (List Char)) (pairs : List (Entity × Entity)),
        "d + 2d8 [a](b)".toList = parts.flatten ∧
          (parse { defaultFace := 6 } "d + 2d8 [a](b)").entities = pairs.map Prod.fst ∧
          (parse { defaultFace := 100, usernameResolver := some some }
            "d + 2d8 [a](b)").entities = pairs.map Prod.snd ∧
          List.Forall₂ (Entity.Twins 6 100) parts pairs) := by
  obtain ⟨text, twins, -⟩ := parse_twins { defaultFace := 6 }
    { defaultFace := 100, usernameResolver := some some } rfl "d + 2d8 [a](b)"
  exact ⟨by decide +kernel, by decide +kernel, text, twins⟩

end DiceChat
