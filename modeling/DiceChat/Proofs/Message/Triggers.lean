import DiceChat.Proofs.Message.Reading

/-!
This file shows which rules a source can do without. A rule for markup matches only where its
characteristic characters stand, so skipping it in a source without them changes no piece. Only
the expression rule can match without any dice, when it finds its brackets too deep.
-/

namespace DiceChat

/-- These rules are tried when none is skipped. -/
def Rule.enabled (env : Env) : List Rule := all.filter fun rule => rule.enabledIn env

/-- This reads a source with all enabled rules. -/
def parseUngated (env : Env) (source : String) : Message :=
  parseWith (Rule.enabled env) env.defaultFace source.toList

/-- These rules recognise markup. -/
def Rule.markup : List Rule := [.strong, .link, .autoUrl]

/-- These rules are left of all rules without expressions. -/
def Rule.withoutExpression : List Rule := markup ++ [.span]

/-- A rule that matches in a source is triggered by it, unless it is the expression rule. -/
theorem Rule.triggered_of_read {rule : Rule} {source input : List Char}
    {found : Piece × List Char} (suffix : input <:+ source) (other : rule ≠ .expression)
    (read : rule.read input = some found) : rule.triggeredBy source = true := by
  obtain ⟨front, rfl⟩ := suffix
  cases rule with
  | strong =>
      obtain ⟨⟨content, later⟩, isStrong, -⟩ := Option.map_eq_some_iff.mp read
      obtain ⟨rfl, -⟩ := Markup.strong_split isStrong
      rw [triggeredBy, Text.contains_eq_true]
      exact ⟨front, content ++ '*' :: '*' :: later, by simp⟩
  | link =>
      obtain ⟨⟨shown, later⟩, isLink, -⟩ := Option.map_eq_some_iff.mp read
      obtain ⟨rfl, -⟩ := Markup.link_split isLink
      rw [triggeredBy, Bool.and_eq_true, Text.contains_eq_true]
      refine ⟨by simp, front ++ '[' :: shown.title, shown.href ++ ')' :: later, by simp⟩
  | autoUrl =>
      obtain ⟨address, isUrl, -⟩ := Option.map_eq_some_iff.mp read
      obtain ⟨later, rfl | rfl⟩ := Markup.url_scheme isUrl
      · rw [triggeredBy, Bool.or_eq_true, Text.contains_eq_true, Text.contains_eq_true]
        exact .inr ⟨front, later, by simp⟩
      · rw [triggeredBy, Bool.or_eq_true, Text.contains_eq_true, Text.contains_eq_true]
        exact .inl ⟨front, later, by simp⟩
  | expression => exact absurd rfl other
  | span => rfl

/-- Rules that do not match can be left out. -/
theorem firstPiece_filter {rules : List Rule} {keep : Rule → Bool} {input : List Char}
    (idle : ∀ rule ∈ rules, keep rule = false → rule.read input = none) :
    firstPiece (rules.filter keep) input = firstPiece rules input := by
  unfold firstPiece
  induction rules with
  | nil => rfl
  | cons rule others ih =>
      obtain ⟨here, later⟩ := List.forall_mem_cons.mp idle
      cases kept : keep rule with
      | true =>
          rw [List.filter_cons_of_pos kept, List.findSome?_cons, List.findSome?_cons, ih later]
      | false =>
          rw [List.filter_cons_of_neg (by simp [kept]), List.findSome?_cons, here kept, ih later]

/-- Rules that find the same first piece everywhere in a source cut it into the same pieces. -/
theorem pieces_congr {first second : List Rule} (source : List Char)
    (same : ∀ input, input <:+ source → firstPiece first input = firstPiece second input) :
    pieces first source = pieces second source := by
  induction source using firstPiece_induction first with
  | last input missing =>
      have alsoMissing := (same input (List.suffix_refl input)).symm.trans missing
      rw [pieces, pieces, readPieces_of_none missing, readPieces_of_none alsoMissing]
  | step input piece rest found ih =>
      have alsoFound := (same input (List.suffix_refl input)).symm.trans found
      have later : rest <:+ input := ⟨piece.source, (firstPiece_split found).1.symm⟩
      rw [pieces_of_some found, pieces_of_some alsoFound]
      rw [ih fun deeper suffix => same deeper (suffix.trans later)]

/-- Skipping untriggered rules keeps the pieces, if the expression rule is not among them. -/
theorem pieces_filter_triggered {rules : List Rule} {source : List Char}
    (admitted : .expression ∈ rules → Rule.expression.triggeredBy source = true) :
    pieces (rules.filter fun rule => rule.triggeredBy source) source = pieces rules source := by
  apply pieces_congr
  intro input suffix
  apply firstPiece_filter
  intro rule member untriggered
  cases read : rule.read input with
  | none => rfl
  | some found =>
      have triggered : rule.triggeredBy source = true := by
        by_cases other : rule = .expression
        · rw [other] at member ⊢
          exact admitted member
        · exact Rule.triggered_of_read suffix other read
      exact absurd (untriggered.symm.trans triggered) (by simp)

/-- The active rules are the enabled ones that the source triggers. -/
theorem Rule.active_eq (env : Env) (source : List Char) :
    Rule.active env source = (Rule.enabled env).filter fun rule => rule.triggeredBy source := by
  rw [Rule.active, Rule.enabled, List.filter_filter]
  apply List.filter_congr
  intro rule _
  exact Bool.and_comm _ _

/-- Nothing changes if the expression rule is off or triggered. -/
theorem parse_eq_parseUngated {env : Env} {source : String}
    (admitted : env.parseExpr = true → Rule.expression.triggeredBy source.toList = true) :
    parse env source = parseUngated env source := by
  have same : pieces (Rule.active env source.toList) source.toList =
      pieces (Rule.enabled env) source.toList := by
    rw [Rule.active_eq]
    apply pieces_filter_triggered
    intro member
    exact admitted (List.mem_filter.mp member).2
  rw [parse, parseUngated, parseWith, parseWith, same]

/-- A skipped expression rule leaves the rules without expressions. -/
theorem parse_eq_withoutExpression {env : Env} {source : String} (enabled : env.parseExpr = true)
    (closed : Rule.expression.triggeredBy source.toList = false) :
    parse env source = parseWith Rule.withoutExpression env.defaultFace source.toList := by
  have rules : Rule.active env source.toList =
      Rule.withoutExpression.filter fun rule => rule.triggeredBy source.toList := by
    simp only [Rule.active, Rule.all, Rule.withoutExpression, Rule.markup, List.cons_append,
      List.nil_append, List.filter_cons, Rule.enabledIn, enabled, closed, Bool.true_and]
    simp
  have same : pieces (Rule.active env source.toList) source.toList =
      pieces Rule.withoutExpression source.toList := by
    rw [rules]
    apply pieces_filter_triggered
    intro member
    exact absurd member (by decide)
  rw [parse, parseWith, parseWith, same]

/-- All rules are enabled with expressions. -/
theorem Rule.enabled_eq_all {env : Env} (enabled : env.parseExpr = true) :
    Rule.enabled env = Rule.all := by
  simp [Rule.enabled, Rule.all, Rule.enabledIn, enabled]

end DiceChat
