import DiceChat.Proofs.Dice.Reach
import DiceChat.Proofs.Message.Coverage
import DiceChat.Proofs.Message.Fallback

/-!
This file says what becomes of the expressions that the depth limits are about. An expression
within the limits is read as it is, unless an operator follows it and what is tried behind that
operator overruns. An expression past the limits stays together: the loop puts all of it into one
text entity, and no part of it is read as a shorter expression.
-/

namespace DiceChat

open Grammar Markup

/-- Opening brackets alone are no expression. -/
theorem reads_openings (count : Nat) : Reads .sum (List.replicate count '(') none := by
  induction count with
  | zero =>
      have noLeaf (value : WrittenExpr) (rest : List Char) : ¬ Leaf [] value rest := by
        intro isLeaf
        obtain ⟨_, _, filled, -⟩ := isLeaf.head
        exact absurd filled (by simp)
      exact .missing .sum (.missing .product (.noAtom noLeaf nofun))
  | succ count ih =>
      have solid : skipSpace (List.replicate count '(') = List.replicate count '(' := by
        cases count <;> rfl
      have inside : Reads .atom ('(' :: List.replicate count '(') (closed ')' none) :=
        .group rfl (solid.symm ▸ ih)
      exact .missing .sum (.missing .product inside)

/-- At every position and under all settings, the expression rule makes an entity of an expression
within the limits, with the tree of that expression and over exactly its source, and it leaves a
bare number alone. This asks of an operator behind the expression, if there is one, that its operand
may sit there and does not overrun. -/
theorem expression_within_limits (env : Env) (start : Nat) {text rest : List Char}
    {value : WrittenExpr} (fits : ReadsWithin .sum 0 (text ++ rest) value rest)
    (behind : ∀ chain last, EndsChain .sum 0 (text ++ rest) rest chain last →
      ¬ OverrunsBehind chain last rest) :
    (Rule.expression.read (text ++ rest)).map
        (fun found => (layout env.defaultFace start [found.1], found.1.source, found.2)) =
      if value.isNum then none
      else some ([⟨UInt64.ofNat start, UInt64.ofNat (Text.units text),
        .expr (value.fill env.defaultFace)⟩], text, rest) := by
  have found := expr_eq_of_fits fits behind
  simp only [Rule.read, Rule.readExpression, found, Text.before_append]
  cases value.isNum <;> rfl

/-- A roll with a bonus is read although an operator without an operand follows. -/
theorem expression_within_limits_dangling :
    (Rule.expression.read ("2d + 1".toList ++ " * x".toList)).map
        (fun found => (layout 6 4 [found.1], found.1.source, found.2)) =
      some ([⟨4, 6, .expr (.binary .add (.roll 2 6) (.num 1))⟩], "2d + 1".toList,
        " * x".toList) := by
  have found : Grammar.expr maxExprDepth ("2d + 1".toList ++ " * x".toList) =
      .read (.binary .add (.roll 2 none) (.num 1)) " * x".toList := by decide +kernel
  obtain ⟨fits, behind⟩ := fits_of_expr_eq found
  exact expression_within_limits { defaultFace := 6 } 4 fits behind

/-- The roll before too many opening brackets is an expression within the limits, yet the rule keeps
it as text: an operator joins it to the brackets, and they are tried before they are given up. -/
theorem expression_kept_before_brackets :
    ReadsWithin .sum 0 ("1d6".toList ++ '+' :: List.replicate 65 '(') (.roll 1 (some 6))
        ('+' :: List.replicate 65 '(') ∧
      (Rule.expression.read ("1d6".toList ++ '+' :: List.replicate 65 '(')).map
          (fun found => (layout 20 0 [found.1], found.1.source, found.2)) =
        some ([⟨0, 69, .text⟩], "1d6+".toList ++ List.replicate 65 '(', []) := by
  refine ⟨?_, by decide +kernel⟩
  have isRoll : Leaf ("1d6".toList ++ '+' :: List.replicate 65 '(') (.roll 1 (some 6))
      ('+' :: List.replicate 65 '(') := leaf_iff.mpr (by decide +kernel)
  have isOperator : OperatorAt .sum ('+' :: List.replicate 65 '(') .add
      (List.replicate 65 '(') := ⟨'+', List.replicate 65 '(', rfl, rfl, rfl⟩
  have noOperator (operator : Operator) (later : List Char) :
      ¬ OperatorAt .product ('+' :: List.replicate 65 '(') operator later := fun found =>
    not_followed_of_operatorAt .sum isOperator (followed_of_operatorAt found)
  exact .dangling .sum (.single .product (.leaf isRoll) noOperator) isOperator (reads_openings 65)

/-- These are the entities of a message, each with the part of the source it was read from. -/
def origins (env : Env) (source : String) : List (Entity × List Char) :=
  (parse env source).entities.zip
    ((mergedPieces (Rule.active env source.toList) source.toList).map Piece.source)

/-- The loop tries the expression rule at a place that it visits, after the rules before it. -/
structure TriesExpression (env : Env) (source : String) (input : List Char) : Prop where
  visits : Visits (Rule.active env source.toList) source.toList input
  turn : ∃ earlier later, Rule.active env source.toList = earlier ++ .expression :: later ∧
    firstPiece earlier input = none

/-- The source up to a visited place is what the pieces before it take. -/
theorem Visits.pieces_eq {rules : List Rule} {input place : List Char}
    (visits : Visits rules input place) :
    ∃ early, pieces rules input = early ++ pieces rules place ∧
      input = early.flatMap Piece.source ++ place := by
  induction visits with
  | start input => exact ⟨[], rfl, rfl⟩
  | @step input rest place piece found visits ih =>
      obtain ⟨early, same, whole⟩ := ih
      refine ⟨piece :: early, ?_, ?_⟩
      · rw [pieces_of_some found, same, List.cons_append]
      · rw [List.flatMap_cons, List.append_assoc, ← whole]
        exact (firstPiece_split found).1

/-- Where no other rule matches, a plain step is taken. -/
theorem pieces_of_plain {rules : List Rule} (member : .span ∈ rules) {step rest : List Char}
    (isStep : PlainStep step rest) (noMarkup : firstPiece Rule.markup (step ++ rest) = none)
    (noExpression : Rule.readExpression (step ++ rest) = none) :
    pieces rules (step ++ rest) = .plain step :: pieces rules rest := by
  apply pieces_of_some
  have found : Rule.span.read (step ++ rest) = some (.plain step, rest) :=
    congrArg (Option.map _) ((plain_eq_some_iff _ _ _).mpr ⟨rfl, isStep⟩)
  obtain ⟨earlier, later, rfl, first⟩ := List.eq_append_cons_of_mem member
  have idle : firstPiece earlier (step ++ rest) = none := by
    apply List.findSome?_eq_none_iff.mpr
    intro rule isEarlier
    have markup := List.findSome?_eq_none_iff.mp noMarkup
    cases rule with
    | strong => exact markup _ (by decide)
    | link => exact markup _ (by decide)
    | autoUrl => exact markup _ (by decide)
    | expression => exact noExpression
    | span => exact absurd isEarlier first
  rw [firstPiece] at idle ⊢
  rw [List.findSome?_append, idle, List.findSome?_cons, found]
  rfl

/-- Markup starts with a star, a bracket or an address. -/
theorem firstPiece_markup_of_ne {first : Char} (others : List Char)
    (other : first ≠ '*' ∧ first ≠ '[' ∧ first ≠ 'h') :
    firstPiece Rule.markup (first :: others) = none := by
  refine firstPiece_markup_eq_none.mpr
    ⟨strong_eq_none_of_head other.1, ?_, url_eq_none_of_head other.2.2⟩
  cases found : link (first :: others) with
  | none => rfl
  | some shown => exact absurd (List.cons.injEq .. ▸ (link_split found).1).1 other.2.1

/-- No markup starts with a digit or with space. -/
theorem firstPiece_markup_of_head {first : Char} (others : List Char)
    (plain : first.isDigit = true ∨ Text.isChatSpace first = true) :
    firstPiece Rule.markup (first :: others) = none := by
  apply firstPiece_markup_of_ne
  refine ⟨?_, ?_, ?_⟩ <;> rintro rfl <;> exact absurd plain (by decide)

/-- Space joins the plain text before it. -/
theorem mergePlain_space {rules : List Rule} (member : .span ∈ rules)
    {text spaces rest : List Char} (blank : Blank spaces)
    (ends : Text.Stops Text.isChatSpace rest) :
    mergePlain (.plain text :: pieces rules (spaces ++ rest)) =
      mergePlain (.plain (text ++ spaces) :: pieces rules rest) := by
  cases spaces with
  | nil => rw [List.nil_append, List.append_nil]
  | cons space others =>
      have isSpace := blank space List.mem_cons_self
      have noExpression : Rule.readExpression (space :: others ++ rest) = none := by
        rw [List.cons_append, Rule.readExpression, expr_of_space isSpace]
      rw [pieces_of_plain member (.ofSpaces blank ends)
        (firstPiece_markup_of_head (others ++ rest) (.inr isSpace)) noExpression, mergePlain_plain]

/-- A number before a word joins the plain text before it. -/
theorem mergePlain_number {rules : List Rule} (member : .span ∈ rules)
    {text digits rest : List Char} (number : BeforeWord digits rest) :
    mergePlain (.plain text :: pieces rules (digits ++ rest)) =
      mergePlain (.plain (text ++ digits) :: pieces rules rest) := by
  have noExpression : Rule.readExpression (digits ++ rest) = none := by
    rw [Rule.readExpression, number.expr_eq]
    rfl
  obtain ⟨first, others, rfl⟩ := List.exists_cons_of_ne_nil number.isNum.filled
  have digit := number.isNum.run.digit
  have ends : Text.Stops Char.isDigit rest := by
    obtain ⟨later, rfl⟩ := number.word
    exact stops_letter later
  rw [pieces_of_plain member (.digits digit ends)
    (firstPiece_markup_of_head (others ++ rest) (.inl (digit first List.mem_cons_self)))
    noExpression, mergePlain_plain]

/-- A tried expression that is too deep gives the run of tokens as a plain piece. -/
theorem TriesExpression.pieces_eq {env : Env} {source : String} {input : List Char}
    (tries : TriesExpression env source input)
    (deep : Grammar.expr maxExprDepth input = .tooDeep) (filled : tokenRun input ≠ []) :
    pieces (Rule.active env source.toList) input =
      .plain (tokenRun input) :: pieces (Rule.active env source.toList) (afterTokens input) := by
  have kept : Rule.expression.read input = some (.plain (tokenRun input), afterTokens input) := by
    rw [Rule.read, Rule.readExpression, deep]
    exact if_neg filled
  apply pieces_of_some
  obtain ⟨earlier, later, rules, missing⟩ := tries.turn
  rw [firstPiece] at missing ⊢
  rw [rules, List.findSome?_append, missing, List.findSome?_cons, kept]
  rfl

/-- A run with a token is not empty. -/
theorem tokenRun_ne_nil {input next : List Char} (found : token input = some next) :
    tokenRun input ≠ [] := by
  intro empty
  have whole := tokenRun_append input
  have shorter := length_token found
  have later := (afterTokens_suffix next).length_le
  rw [empty, List.nil_append, afterTokens_of_token found] at whole
  rw [whole] at later
  omega

/-- Behind a place where the run of tokens passes an expression, the pieces merge to one text with
all of the expression. -/
theorem TriesExpression.mergePlain_eq {env : Env} {source : String} {text rest : List Char}
    (tries : TriesExpression env source (text ++ rest))
    (deep : Grammar.expr maxExprDepth (text ++ rest) = .tooDeep)
    (passes : Passes (text ++ rest) rest) :
    ∃ back after, rest = back ++ after ∧
      mergePlain (pieces (Rule.active env source.toList) (text ++ rest)) =
        mergePlain (.plain (text ++ back) :: pieces (Rule.active env source.toList) after) := by
  have run := tokenRun_append (text ++ rest)
  cases passes with
  | through found reach _ =>
      obtain ⟨back, whole⟩ := reach
      refine ⟨back, afterTokens (text ++ rest), whole.symm, ?_⟩
      rw [tries.pieces_eq deep (tokenRun_ne_nil found)]
      have same : tokenRun (text ++ rest) = text ++ back := by
        apply (List.append_left_inj (afterTokens (text ++ rest))).mp
        rw [run, List.append_assoc, whole]
      rw [same]
  | @short digits start left number =>
      have isToken : (token (text ++ rest)).isSome = true := by
        refine start.resolve_left fun same => ?_
        rw [same, number.expr_eq] at deep
        exact absurd deep (by simp)
      obtain ⟨next, found⟩ := Option.isSome_iff_exists.mp isToken
      obtain ⟨spaces, split, blank⟩ := skipSpace_split (afterTokens (text ++ rest))
      have ends := Text.stops_dropWhile Text.isChatSpace (afterTokens (text ++ rest))
      rw [← skipSpace, left] at ends
      rw [left] at split
      have same : text = tokenRun (text ++ rest) ++ spaces ++ digits := by
        apply (List.append_left_inj rest).mp
        simpa [split] using run.symm
      have member := span_mem_active env source.toList
      refine ⟨[], rest, rfl, ?_⟩
      rw [tries.pieces_eq deep (tokenRun_ne_nil found), split, mergePlain_space member blank ends,
        mergePlain_number member number, List.append_nil, ← same]

/-- Merging starts from the end. -/
theorem mergePlain_append (early late : List Piece) :
    mergePlain (early ++ late) = early.foldr joinPlain (mergePlain late) :=
  List.foldr_append

/-- A join changes only the first of the pieces it joins to. -/
theorem joinPlain_append (piece next : Piece) (others later : List Piece) :
    joinPlain piece (next :: others ++ later) = joinPlain piece (next :: others) ++ later := by
  rw [List.cons_append, joinPlain, joinPlain]
  split <;> rfl

/-- Merging keeps a plain piece together: its text is a part of one merged piece. -/
theorem mergePlain_keeps (early late : List Piece) (body : List Char) :
    ∃ earlier piece later front back,
      mergePlain (early ++ .plain body :: late) = earlier ++ piece :: later ∧
        piece.isPlain = true ∧ piece.source = front ++ body ++ back ∧
        earlier.flatMap Piece.source ++ front = early.flatMap Piece.source ∧
        back ++ later.flatMap Piece.source = late.flatMap Piece.source := by
  induction early with
  | nil =>
      rw [List.nil_append, mergePlain_cons, ← source_mergePlain late]
      cases mergePlain late with
      | nil => exact ⟨[], .plain body, [], [], [], rfl, rfl, by simp [Piece.plain], rfl, rfl⟩
      | cons next others =>
          rw [joinPlain]
          split
          · exact ⟨[], _, others, [], next.source, rfl, rfl, by simp [Piece.plain], rfl, rfl⟩
          · exact ⟨[], .plain body, next :: others, [], [], rfl, rfl, by simp [Piece.plain], rfl,
              rfl⟩
  | cons first early ih =>
      obtain ⟨earlier, piece, later, front, back, merged, plain, whole, before, after⟩ := ih
      rw [List.cons_append, mergePlain_cons, merged, List.flatMap_cons, ← before]
      cases earlier with
      | nil =>
          rw [List.nil_append, joinPlain, plain, Bool.and_true]
          split
          · refine ⟨[], _, later, first.source ++ front, back, rfl, rfl, ?_, rfl, after⟩
            simp [whole]
          · exact ⟨[first], piece, later, front, back, rfl, plain, whole, by simp, after⟩
      | cons next others =>
          refine ⟨_, piece, later, front, back, joinPlain_append first next others _, plain, whole,
            ?_, after⟩
          rw [flatMap_joinPlain Piece.source fun _ _ _ _ => rfl, List.append_assoc]

/-- Every entity of a layout belongs to the source of its piece. -/
theorem layout_zip_source (face : UInt32) (start : Nat) (pieces : List Piece) :
    ((layout face start pieces).zip (pieces.map Piece.source)).map
        (fun origin => (origin.1.body, origin.2)) =
      pieces.map fun piece => (piece.mark.body face, piece.source) := by
  induction pieces generalizing start with
  | nil => rfl
  | cons piece others ih =>
      rw [layout, List.map_cons, List.zip_cons_cons, List.map_cons, List.map_cons, ih]

/-- The origins split where the merged pieces do. -/
theorem origins_split {env : Env} {source : String} {first last : List Piece} {piece : Piece}
    (merged : mergedPieces (Rule.active env source.toList) source.toList =
      first ++ piece :: last) :
    ∃ earlier entity later, origins env source = earlier ++ (entity, piece.source) :: later ∧
      entity.body = piece.mark.body env.defaultFace ∧
      earlier.flatMap Prod.snd = first.flatMap Piece.source ∧
      later.flatMap Prod.snd = last.flatMap Piece.source := by
  have views : (origins env source).map (fun origin => (origin.1.body, origin.2)) =
      (first ++ piece :: last).map fun piece =>
        (piece.mark.body env.defaultFace, piece.source) := by
    rw [origins, parse, parseWith_eq_layout, layout_zip_source, merged]
  have sources {origins : List (Entity × List Char)} {pieces : List Piece}
      (same : origins.map (fun origin => (origin.1.body, origin.2)) =
        pieces.map fun piece => (piece.mark.body env.defaultFace, piece.source)) :
      origins.flatMap Prod.snd = pieces.flatMap Piece.source := by
    simpa [List.flatMap_map] using congrArg (List.flatMap Prod.snd) same
  rw [List.map_append, List.map_cons] at views
  obtain ⟨earlier, others, isOrigins, isEarlier, isOthers⟩ := List.map_eq_append_iff.mp views
  obtain ⟨⟨entity, part⟩, later, rfl, isEntity, isLater⟩ := List.map_eq_cons_iff.mp isOthers
  obtain ⟨isBody, rfl⟩ := Prod.mk.injEq .. ▸ isEntity
  exact ⟨earlier, entity, later, isOrigins, isBody, sources isEarlier, sources isLater⟩

/-- Every entity of a message has an origin. -/
theorem origins_entities (env : Env) (source : String) :
    (origins env source).map Prod.fst = (parse env source).entities := by
  apply List.map_fst_zip
  have bodies := congrArg List.length
    (layout_map_body env.defaultFace 0 (mergedPieces (Rule.active env source.toList) source.toList))
  rw [List.length_map, List.length_map] at bodies
  rw [parse, parseWith_eq_layout, List.length_map, bodies]

/-- This is a sum with so many operators between ones. -/
def onesJoined : Nat → List Char
  | 0 => ['1']
  | count + 1 => '1' :: '+' :: onesJoined count

/-- The grammar reads every sum of ones to its end. -/
theorem reads_onesJoined (count : Nat) :
    ∃ value, Reads .sum (onesJoined count) (some (value, [])) := by
  induction count with
  | zero =>
      have isLeaf : Leaf ['1'] (.num 1) [] := leaf_iff.mpr rfl
      have noOperator (level : Level) (operator : Operator) (later : List Char) :
          ¬ OperatorAt level [] operator later := by simp [OperatorAt, skipSpace]
      exact ⟨_, .single .sum (.single .product (.leaf isLeaf) (noOperator _)) (noOperator _)⟩
  | succ count ih =>
      obtain ⟨value, reads⟩ := ih
      have isLeaf : Leaf ('1' :: '+' :: onesJoined count) (.num 1) ('+' :: onesJoined count) :=
        leaf_iff.mpr rfl
      have solid : skipSpace (onesJoined count) = onesJoined count := by cases count <;> rfl
      have isOperator : OperatorAt .sum ('+' :: onesJoined count) .add (onesJoined count) :=
        ⟨'+', onesJoined count, rfl, rfl, solid.symm⟩
      have noOperator (operator : Operator) (later : List Char) :
          ¬ OperatorAt .product ('+' :: onesJoined count) operator later := fun found =>
        not_followed_of_operatorAt .sum isOperator (followed_of_operatorAt found)
      exact ⟨_, .chained .sum (.single .product (.leaf isLeaf) noOperator) isOperator reads⟩

/-- An expression that the grammar without a bound reads where the depth limits stop the expression
rule ends up in one text entity of the message as a whole. -/
theorem overdeep_expression_in_one_text (env : Env) (source : String)
    {before text rest : List Char} {value : WrittenExpr}
    (whole : source.toList = before ++ (text ++ rest))
    (tries : TriesExpression env source (text ++ rest))
    (deep : Grammar.expr maxExprDepth (text ++ rest) = .tooDeep)
    (reads : Reads .sum (text ++ rest) (some (value, rest))) :
    ∃ earlier entity chunk later front back,
      origins env source = earlier ++ (entity, chunk) :: later ∧
        (parse env source).entities = earlier.map Prod.fst ++ entity :: later.map Prod.fst ∧
        entity.body = .text ∧ chunk = front ++ text ++ back ∧
        earlier.flatMap Prod.snd ++ front = before ∧ back ++ later.flatMap Prod.snd = rest := by
  obtain ⟨early, same, split⟩ := tries.visits.pieces_eq
  obtain ⟨extra, after, rfl, merged⟩ := tries.mergePlain_eq deep reads.passes
  have isBefore : early.flatMap Piece.source = before :=
    List.append_cancel_right (split.symm.trans whole)
  obtain ⟨first, piece, last, front, back, kept, plain, chunk, isFront, isBack⟩ :=
    mergePlain_keeps early (pieces (Rule.active env source.toList) after) (text ++ extra)
  have isMerged : mergedPieces (Rule.active env source.toList) source.toList =
      first ++ piece :: last := by
    rw [mergedPieces, same, mergePlain_append, merged, ← mergePlain_append, kept]
  obtain ⟨earlier, entity, later, isOrigins, isBody, isEarlier, isLater⟩ := origins_split isMerged
  refine ⟨earlier, entity, piece.source, later, front, extra ++ back, isOrigins, ?_, ?_, ?_, ?_, ?_⟩
  · rw [← origins_entities, isOrigins, List.map_append, List.map_cons]
  · rw [isBody, show piece.mark = .text from by simpa [Piece.isPlain] using plain]
    rfl
  · simp [chunk]
  · rw [isEarlier, isFront, isBefore]
  · rw [isLater, List.append_assoc, isBack, pieces_source]

/-- A sum of seventy ones behind a roll is kept as text. -/
theorem overdeep_expression_in_one_text_ones :
    ∃ earlier entity chunk later front back,
      origins {} (String.ofList ("2d6 ".toList ++ (onesJoined 69 ++ []))) =
          earlier ++ (entity, chunk) :: later ∧
        (parse {} (String.ofList ("2d6 ".toList ++ (onesJoined 69 ++ [])))).entities =
          earlier.map Prod.fst ++ entity :: later.map Prod.fst ∧
        entity.body = .text ∧ chunk = front ++ onesJoined 69 ++ back ∧
        earlier.flatMap Prod.snd ++ front = "2d6 ".toList ∧
        back ++ later.flatMap Prod.snd = [] := by
  obtain ⟨value, reads⟩ := reads_onesJoined 69
  rw [← List.append_nil (onesJoined 69)] at reads
  have rules : Rule.active {} ("2d6 ".toList ++ (onesJoined 69 ++ [])) = [.expression, .span] := by
    decide +kernel
  have roll : firstPiece [.expression, .span] ("2d6 ".toList ++ (onesJoined 69 ++ [])) =
      some (⟨"2d6".toList, "2d6".toList, .expr (.roll 2 (some 6))⟩,
        ' ' :: (onesJoined 69 ++ [])) := by decide +kernel
  have space : firstPiece [.expression, .span] (' ' :: (onesJoined 69 ++ [])) =
      some (.plain [' '], onesJoined 69 ++ []) := by decide +kernel
  refine overdeep_expression_in_one_text {} _ String.toList_ofList ⟨?_, [], [.span], ?_, rfl⟩
    (by decide +kernel) reads
  · rw [String.toList_ofList, rules]
    exact .step roll (.step space (.start _))
  · rw [String.toList_ofList, rules]
    rfl

end DiceChat
