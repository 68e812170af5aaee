import DiceChat.Proofs.Dice.EvaluationDepth
import DiceChat.Proofs.Dice.Height
import DiceChat.Proofs.Message.Coverage

/-!
This file relates the expressions of a message to what their evaluation can reach. The budget of
the reader counts each bracket and each operand once, and a bracket whose content is a sum of
products can add two levels to the tree for one level of the budget. So the source decides whether
an expression can be evaluated: exactly those of a height within the last level can.
-/

namespace DiceChat

open Grammar

/-- Only an expression has a node. -/
def EntityBody.node? : EntityBody → Option Expr
  | .expr node => some node
  | _ => none

/-- These are the nodes of the expressions of a message. -/
def Message.nodes (message : Message) : List Expr :=
  message.entities.filterMap fun entity => entity.body.node?

/-- No expression of an evaluable message is too deep. -/
def Message.Evaluable (message : Message) : Prop :=
  ∀ node ∈ message.nodes, node.depth ≤ maxEvaluationDepth ∧
    ∀ generator most, (node.evaluate generator).1 ≠ .error (.tooDeep most)

/-- A body has a node exactly if its mark is an expression. -/
theorem Mark.node?_body (mark : Mark) (face : UInt32) (node : Expr) :
    (mark.body face).node? = some node ↔
      ∃ written : WrittenExpr, mark = .expr written ∧ written.fill face = node := by
  cases mark <;> simp [Mark.body, EntityBody.node?]

/-- Merging keeps the pieces that are not plain. -/
theorem mem_mergePlain_of_marked {piece : Piece} (marked : piece.isPlain = false)
    (pieces : List Piece) : piece ∈ mergePlain pieces ↔ piece ∈ pieces := by
  have kept := flatMap_mergePlain (fun other => if other.isPlain then [] else [other])
    (fun first second firstPlain secondPlain => by rw [if_pos firstPlain, if_pos secondPlain]; rfl)
    pieces
  have mem (others : List Piece) :
      piece ∈ others.flatMap (fun other => if other.isPlain then [] else [other]) ↔
        piece ∈ others := by
    rw [List.mem_flatMap]
    constructor
    · intro ⟨other, member, same⟩
      split at same
      · exact absurd same (by simp)
      · rwa [List.mem_singleton.mp same]
    · intro member
      exact ⟨piece, member, by simp [marked]⟩
  rw [← mem, kept, mem]

/-- The nodes of a message are the expressions among the pieces of its source. -/
theorem mem_nodes_iff (rules : List Rule) (face : UInt32) (source : List Char) (node : Expr) :
    node ∈ (parseWith rules face source).nodes ↔
      ∃ piece ∈ pieces rules source, ∃ written : WrittenExpr,
        piece.mark = .expr written ∧ written.fill face = node := by
  have nodes : (parseWith rules face source).nodes = (mergedPieces rules source).filterMap
      fun piece => (piece.mark.body face).node? := by
    have bodies := congrArg (List.filterMap EntityBody.node?)
      (layout_map_body face 0 (mergedPieces rules source))
    rw [List.filterMap_map, List.filterMap_map] at bodies
    rw [parseWith_eq_layout]
    exact bodies
  rw [nodes, List.mem_filterMap]
  constructor
  · rintro ⟨piece, member, isNode⟩
    obtain ⟨written, marked, filled⟩ := (Mark.node?_body piece.mark face node).mp isNode
    have notPlain : piece.isPlain = false := by simp [Piece.isPlain, marked]
    exact ⟨piece, (mem_mergePlain_of_marked notPlain _).mp member, written, marked, filled⟩
  · rintro ⟨piece, member, written, marked, filled⟩
    have notPlain : piece.isPlain = false := by simp [Piece.isPlain, marked]
    exact ⟨piece, (mem_mergePlain_of_marked notPlain _).mpr member,
      (Mark.node?_body piece.mark face node).mpr ⟨written, marked, filled⟩⟩

/-- Each node of a message is written by a piece of its source and as deep as that is high. -/
theorem exists_written_of_mem_nodes {rules : List Rule} {face : UInt32} {source : List Char}
    {node : Expr} (member : node ∈ (parseWith rules face source).nodes) :
    ∃ piece ∈ pieces rules source, ∃ written, piece.mark = .expr written ∧
      Written .sum maxExprDepth written piece.source ∧ node.depth = written.depth := by
  obtain ⟨piece, isPiece, written, marked, rfl⟩ := (mem_nodes_iff rules face source node).mp member
  refine ⟨piece, isPiece, written, marked, ?_, Formula.depth_mapFace _ written⟩
  exact (pieces_faithful rules source piece isPiece).writes written marked

/-- A tree that fits is never too deep. -/
theorem evaluate_ne_tooDeep {node : Expr} (fits : node.depth ≤ maxEvaluationDepth)
    (generator : Generator) (most : UInt64) :
    (node.evaluate generator).1 ≠ .error (.tooDeep most) := by
  apply Expr.evaluateAt_ne_tooDeep
  omega

/-- A message is evaluable exactly if each of its expressions is written with a height within the
last level. No tree is deeper than twice the budget, and one that does not fit has no result. -/
theorem parse_evaluable_iff (env : Env) (source : String) :
    ((parse env source).Evaluable ↔
      ∀ piece ∈ pieces (Rule.active env source.toList) source.toList, ∀ written,
        piece.mark = .expr written → height piece.source ≤ maxEvaluationDepth) ∧
    ∀ node ∈ (parse env source).nodes, node.depth ≤ 2 * (maxExprDepth - 1) ∧
      (maxEvaluationDepth < node.depth →
        ∀ generator result, (node.evaluate generator).1 ≠ .ok result) := by
  refine ⟨⟨?_, ?_⟩, ?_⟩
  · intro evaluable piece isPiece written marked
    have writes := (pieces_faithful _ _ piece isPiece).writes written marked
    have member := (mem_nodes_iff _ env.defaultFace _ _).mpr ⟨piece, isPiece, written, marked, rfl⟩
    have fits := (evaluable _ member).1
    rw [WrittenExpr.fill, Formula.depth_mapFace] at fits
    rwa [writes.height_eq]
  · intro low node member
    obtain ⟨piece, isPiece, written, marked, writes, sameDepth⟩ :=
      exists_written_of_mem_nodes member
    have fits : node.depth ≤ maxEvaluationDepth := by
      rw [sameDepth, ← writes.height_eq]
      exact low piece isPiece written marked
    exact ⟨fits, evaluate_ne_tooDeep fits⟩
  · intro node member
    constructor
    · obtain ⟨_, _, _, _, writes, sameDepth⟩ := exists_written_of_mem_nodes member
      rw [sameDepth]
      exact writes.depth_le_most
    · intro deep generator result
      apply Expr.evaluateAt_ne_ok
      omega

/-- One bracket around a sum with a long product is enough for an expression that is too deep. -/
theorem exists_tooDeep_node :
    ∃ node ∈ (parse {} ("(1*1*1*1*1*1*1*1*1*1*1*1*1*1*1*1*1*1*1*1*1*1*1*1*1*1*1*1*1*1*1*1*" ++
        "1*1*1*1*1*1*1*1*1*1*1*1*1*1*1*1*1*1*1*1*1*1*1*1*1*1*1*1*1*1*1+1)*1+1")).nodes,
      maxEvaluationDepth < node.depth ∧ node.evaluateSeeded ⟨7⟩ = .error (.tooDeep 64) := by
  decide +kernel

/-- A source without opening brackets is always evaluable. -/
theorem parse_evaluable_of_bracketless {source : String}
    (bracketless : ∀ character ∈ source.toList, closerOf character = none) (env : Env) :
    (parse env source).Evaluable := by
  intro node member
  obtain ⟨piece, isPiece, written, marked, writes, sameDepth⟩ := exists_written_of_mem_nodes member
  have none : brackets piece.source = 0 := by
    apply List.countP_eq_zero.mpr
    intro character isCharacter
    have inSource : character ∈ source.toList := by
      rw [← pieces_source (Rule.active env source.toList) source.toList]
      exact List.mem_flatMap.mpr ⟨piece, isPiece, isCharacter⟩
    simp [bracketless character inSource]
  have fits : node.depth ≤ maxEvaluationDepth := by
    have sameLimit : maxExprDepth = maxEvaluationDepth := rfl
    have bound := writes.depth_le_brackets
    rw [none, sameLimit, ← sameDepth, Level.around] at bound
    omega
  exact ⟨fits, evaluate_ne_tooDeep fits⟩

end DiceChat
