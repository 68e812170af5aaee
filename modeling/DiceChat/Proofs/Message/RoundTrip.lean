import DiceChat.Proofs.Dice.Rendered
import DiceChat.Proofs.Message.Gating
import DiceChat.Proofs.Message.TooDeep

/-!
This file reads printed expressions as messages. The rules for markup pass a printed expression by,
the expression rule takes all of it, and its entity has the tree that was printed.
-/

namespace DiceChat

open Grammar Markup

/-- The reader takes a printed expression as a whole. -/
theorem Expr.expr_render {expr : Expr} (readable : Expr.Readable expr)
    (shallow : expr.depth ≤ 31) :
    Grammar.expr maxExprDepth (Expr.render expr).toList = .read (expr.mapFace some) [] := by
  have room : 0 + 2 * expr.depth < maxExprDepth := by
    rw [maxExprDepth]
    omega
  have printed := Expr.readsWithin_renderIn readable room (ends_nil (printedLevel none))
  have alone := (ends_nil .sum).notFollowed
  have fits := printed.climb (Level.below_sum _) alone
  rw [List.append_nil] at fits
  rw [Expr.render, String.toList_ofList]
  apply expr_eq_of_fits fits
  -- Nothing stands behind the text, so nothing can overrun there.
  rintro chain last ends ⟨operator, later, isOperator, -⟩
  exact alone (ends.followed isOperator)

/-- No markup starts with a printed expression. -/
theorem Expr.markup_render (expr : Expr) :
    firstPiece Rule.markup (Expr.render expr).toList = none := by
  obtain ⟨first, others, same, opens⟩ := Expr.renderIn_head none expr
  rw [Expr.render, String.toList_ofList, same]
  apply firstPiece_markup_of_ne
  refine ⟨?_, ?_, ?_⟩ <;> rintro rfl <;> exact absurd opens (by decide)

/-- A printed expression triggers the expression rule. -/
theorem Expr.triggered_render {expr : Expr} (readable : Expr.Readable expr)
    (shallow : expr.depth ≤ 31) :
    Rule.expression.triggeredBy (Expr.render expr).toList = true := by
  by_contra closed
  have diceless := diceless_of_untriggered (by simpa using closed)
  exact (exprWithin_sound maxExprDepth).ne_read diceless _ _ _ (Expr.expr_render readable shallow)

/-- This piece is a whole printed expression. -/
def Expr.piece (expr : Expr) : Piece :=
  ⟨(Expr.render expr).toList, (Expr.render expr).toList, .expr (expr.mapFace some)⟩

/-- The first piece of a printed expression is all of it, unless it is a bare number. -/
theorem Expr.firstPiece_render {expr : Expr} (dice : expr.isNum = false)
    (readable : Expr.Readable expr) (shallow : expr.depth ≤ 31) :
    firstPiece Rule.all (Expr.render expr).toList = some (Expr.piece expr, []) := by
  exact firstPiece_of_expr (Expr.markup_render expr) (Expr.expr_render readable shallow)
    ((Formula.isNum_mapFace some expr).trans dice)

/-- A printed expression is read back as one entity over the whole text, with the tree that was
printed. This asks for numbers and rolls that the grammar has digits for, and for a depth of at most
31, since each level of the tree takes two of the 64 levels of the reader. -/
theorem parse_render (env : Env) (expr : Expr) (dice : expr.isNum = false)
    (readable : Expr.Readable expr) (shallow : expr.depth ≤ 31) (enabled : env.parseExpr = true) :
    ∃ offset : UInt64, offset.toNat = Text.units (Expr.render expr).toList ∧
      parse env (Expr.render expr) = ⟨Expr.render expr, [⟨0, offset, .expr expr⟩]⟩ := by
  refine ⟨_, UInt64.toNat_ofNat_of_lt' (Expr.units_render readable shallow), ?_⟩
  have merged : mergedPieces Rule.all (Expr.render expr).toList = [Expr.piece expr] := by
    rw [mergedPieces, pieces_of_some (Expr.firstPiece_render dice readable shallow),
      mergePlain_cons, ← mergedPieces, (mergedPieces_eq_nil Rule.all []).mpr rfl, joinPlain]
  rw [parse_eq_parseUngated fun _ => Expr.triggered_render readable shallow, parseUngated,
    Rule.enabled_eq_all enabled, parseWith_eq_layout, merged]
  simp [textOf, layout, Expr.piece, Mark.body, Expr.fill_mapFace_some]

/-- This difference nests to the right down to the last level. -/
def nestedDifference : Expr :=
  .binary .sub (.binary .mul (.num 2) (.roll 3 0))
    (Nat.iterate (.binary .sub (.num 99999)) 30 (.roll 999 9999))

/-- A product without parentheses, a die without faces and the largest leaves are read back at the
last level. -/
theorem parse_render_nestedDifference :
    nestedDifference.isNum = false ∧ Expr.Readable nestedDifference ∧
      nestedDifference.depth = 31 ∧
      ∃ offset : UInt64, offset.toNat = Text.units (Expr.render nestedDifference).toList ∧
        parse { defaultFace := 6 } (Expr.render nestedDifference) =
          ⟨Expr.render nestedDifference, [⟨0, offset, .expr nestedDifference⟩]⟩ := by
  have readable : Expr.Readable nestedDifference := by decide +kernel
  have deep : nestedDifference.depth = 31 := by decide +kernel
  exact ⟨rfl, readable, deep,
    parse_render { defaultFace := 6 } nestedDifference rfl readable deep.le rfl⟩

-- The bound on the depth is sharp: one level more is too deep for the reader.
example : Grammar.expr maxExprDepth (Expr.render (Nat.iterate (.binary .sub (.num 1)) 32
    (.roll 1 6))).toList = .tooDeep := by decide +kernel

end DiceChat
