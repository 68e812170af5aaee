import DiceChat.Proofs.Dice.Completeness
import DiceChat.Proofs.Message.Gating
import DiceChat.Proofs.Message.Pieces

/-!
This file reads the text of an expression as a message of its own. Neither the rules for markup nor
the depth limits cut into a written expression, so the message has that one entity. In particular
the tree of every expression in a message is a matter of the text it covers.
-/

namespace DiceChat

open Grammar Markup

/-- No link stands in a text where no square bracket is closed right before a parenthesis. -/
def Linkless (text : List Char) : Prop :=
  text.IsChain fun first second => ¬ (first = ']' ∧ second = '(')

theorem Linkless.link_eq_none {text : List Char} (linkless : Linkless text) : link text = none := by
  cases found : link text with
  | none => rfl
  | some shown =>
      obtain ⟨whole, -⟩ := link_split found
      rw [← List.cons_append] at whole
      have apart := List.isChain_iff_forall_rel_of_append_cons_cons.mp linkless whole
      exact absurd ⟨rfl, rfl⟩ apart

theorem linkless_of_unclosed {text : List Char} (unclosed : ']' ∉ text) : Linkless text := by
  apply List.isChain_iff_forall_rel_of_append_cons_cons.mpr
  rintro first second early late rfl ⟨rfl, -⟩
  exact unclosed (by simp)

/-- Texts without links are joined to one, unless their ends make the beginning of a target. -/
theorem Linkless.append {front back : List Char} (isFront : Linkless front)
    (isBack : Linkless back) (apart : front.getLast? ≠ some ']' ∨ back.head? ≠ some '(') :
    Linkless (front ++ back) := by
  apply List.IsChain.append isFront isBack
  rintro last isLast next isNext ⟨rfl, rfl⟩
  rcases apart with notLast | notNext
  · exact notLast isLast
  · exact notNext isNext

/-- Space belongs to no link. -/
theorem linkless_blank {text : List Char} (blank : Blank text) :
    Linkless text ∧ text.getLast? ≠ some ']' ∧ text.head? ≠ some '(' := by
  have unclosed : ']' ∉ text := fun member => absurd (blank _ member) (by decide)
  refine ⟨linkless_of_unclosed unclosed, ?_, ?_⟩
  · exact fun isLast => unclosed (List.mem_of_getLast? isLast)
  · exact fun isHead => absurd (blank _ (List.mem_of_head? isHead)) (by decide)

section

variable {level : Level} {budget : Nat} {value : WrittenExpr} {text : List Char}

/-- No link stands in a written text: an operator or a closing bracket follows every bracket. -/
theorem Grammar.Written.linkless (written : Written level budget value text) : Linkless text := by
  have single {character : Char} (other : character ≠ ']') : Linkless [character] :=
    linkless_of_unclosed (by simpa using other.symm)
  induction written with
  | roll counterDigits _ faceDigits _ =>
      apply linkless_of_unclosed
      intro member
      exact absurd (isAlphanum_of_mem_roll counterDigits faceDigits _ member) (by decide)
  | num digit _ _ =>
      apply linkless_of_unclosed
      exact fun member => absurd (digit _ member) (by decide)
  | @group _ opening closing _ before content after closes blankBefore blankAfter _ ih =>
      obtain ⟨isBefore, lastBefore, -⟩ := linkless_blank blankBefore
      obtain ⟨isAfter, -, headAfter⟩ := linkless_blank blankAfter
      have notClosing : opening ≠ ']' := by
        rcases opening_cases closes with rfl | rfl | rfl <;> decide
      have isClosing : Linkless [closing] := List.isChain_singleton closing
      have notOpening : closing ≠ '(' := by
        rcases closing_cases closes with rfl | rfl | rfl <;> decide
      have inside := (isBefore.append ih (.inl lastBefore)).append isAfter (.inr headAfter)
      have closed := inside.append isClosing (.inr (by simpa using notOpening))
      exact (single notClosing).append closed (.inl (by simpa using notClosing))
  | single _ _ ih => exact ih
  | @linked _ high _ _ _ leftText before after rightText symbol _ _ reads blankBefore blankAfter _
      _ isLeft isRight =>
      obtain ⟨isBefore, -, headBefore⟩ := linkless_blank blankBefore
      obtain ⟨isAfter, lastAfter, -⟩ := linkless_blank blankAfter
      have notBracket : symbol ≠ ']' ∧ symbol ≠ '(' := by
        constructor <;> rintro rfl <;> cases high <;> exact absurd reads (by simp [
          Level.operator?, Operator.multiplicative?, Operator.additive?])
      have left := isLeft.append isBefore (.inr headBefore)
      have right := (single notBracket.1).append (isAfter.append isRight (.inl lastAfter))
        (.inl (by simpa using notBracket.1))
      exact left.append right (.inr (by simpa using notBracket.2))

/-- No markup starts with a written text. -/
theorem Grammar.Written.markup_eq_none (written : Written level budget value text) :
    firstPiece Rule.markup text = none := by
  have noLink := written.linkless.link_eq_none
  obtain ⟨first, others, rfl, opens⟩ := written.head
  have other : first ≠ '*' ∧ first ≠ 'h' := by
    rcases opens with digit | rfl | ⟨closing, closes⟩
    · constructor <;> rintro rfl <;> exact absurd digit (by decide)
    · decide
    · rcases opening_cases closes with rfl | rfl | rfl <;> decide
  exact firstPiece_markup_eq_none.mpr
    ⟨strong_eq_none_of_head other.1, noLink, url_eq_none_of_head other.2⟩

/-- A written text that is not a bare number is one piece. -/
theorem Grammar.Written.pieces_eq (written : Written .sum maxExprDepth value text)
    (dice : value.isNum = false) : pieces Rule.all text = [⟨text, text, .expr value⟩] := by
  have first := firstPiece_of_expr written.markup_eq_none (expr_eq_read_iff.mpr written) dice
  have nothing : pieces Rule.all [] = [] := by decide +kernel
  rw [pieces_of_some first, nothing]

/-- A written text triggers the expression rule. -/
theorem Grammar.Written.triggers (written : Written level budget value text) :
    Rule.expression.triggeredBy text = true := by
  by_contra closed
  obtain ⟨character, member, dice⟩ := written.exists_dice
  obtain ⟨notDigit, notLetter⟩ := diceless_of_untriggered (by simpa using closed) character member
  rcases dice with digit | letter
  · exact absurd digit (by simp [notDigit])
  · exact notLetter letter

/-- A written text that is not a bare number is a message with one entity over all of it. -/
theorem parse_of_written {env : Env} (enabled : env.parseExpr = true)
    (written : Written .sum maxExprDepth value text) (dice : value.isNum = false) :
    parse env (String.ofList text) = ⟨String.ofList text,
      [⟨0, UInt64.ofNat (Text.units text), .expr (value.fill env.defaultFace)⟩]⟩ := by
  have admitted : Rule.expression.triggeredBy (String.ofList text).toList = true := by
    rw [String.toList_ofList]
    exact written.triggers
  rw [parse_eq_parseUngated fun _ => admitted, parseUngated, Rule.enabled_eq_all enabled, parseWith,
    String.toList_ofList, written.pieces_eq dice]
  simp [textOf, layout, joinText, Mark.body]

end

/-- The text that an expression of a message covers is, as a message of its own, that one expression
over all of it. Nothing around the expression has an influence on its tree. -/
theorem parse_covered_expression (env : Env) (source : String)
    (short : source.utf8ByteSize < 2 ^ 63) {entity : Entity}
    (member : entity ∈ (parse env source).entities) (isExpr : entity.kind = .expr) :
    ∃ covered, entity.slice (parse env source).text.toList = some covered ∧
      entity.offset.toNat = Text.units covered ∧
      parse env (String.ofList covered) =
        ⟨String.ofList covered, [⟨0, entity.offset, entity.body⟩]⟩ := by
  obtain ⟨piece, isPiece, made⟩ := exists_madeOf env source short member
  obtain ⟨written, marked⟩ : ∃ written, piece.mark = .expr written := by
    apply Mark.kind_body_eq_expr.mp
    rw [← made.body]
    exact isExpr
  obtain ⟨tried, dice, same, writes⟩ := expression_of_mem_mergedPieces isPiece marked
  have sized := Entity.units_slice made.slice
  refine ⟨piece.text, made.slice, sized.symm, ?_⟩
  rw [same] at sized ⊢
  rw [parse_of_written (parseExpr_of_mem_active tried) writes dice, sized, UInt64.ofNat_toNat,
    made.body, marked, Mark.body]

/-- This product ends with the fifth digit of a number, before an operator that joins it to a
word. -/
def productBeforeWord : Entity :=
  ⟨2, 18, .expr (.binary .mul (.roll 2 6)
    (.binary .mul (.binary .add (.num 1) (.num 2)) (.num 12345)))⟩

theorem parse_covered_expression_product :
    productBeforeWord ∈
        (parse { defaultFace := 6 } "a 2d * [1 + 2]*1234567 + dog").entities ∧
      ∃ covered, productBeforeWord.slice
          (parse { defaultFace := 6 } "a 2d * [1 + 2]*1234567 + dog").text.toList = some covered ∧
        productBeforeWord.offset.toNat = Text.units covered ∧
        parse { defaultFace := 6 } (String.ofList covered) =
          ⟨String.ofList covered, [⟨0, productBeforeWord.offset, productBeforeWord.body⟩]⟩ := by
  have member : productBeforeWord ∈
      (parse { defaultFace := 6 } "a 2d * [1 + 2]*1234567 + dog").entities := by decide +kernel
  exact ⟨member, parse_covered_expression { defaultFace := 6 } "a 2d * [1 + 2]*1234567 + dog"
    (by decide) member rfl⟩

end DiceChat
