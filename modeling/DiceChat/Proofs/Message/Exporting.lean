import Mathlib.Data.List.Forall2
import DiceChat.Message.Export
import DiceChat.Proofs.Entity.Walk
import DiceChat.Proofs.Message.Evaluable
import DiceChat.Proofs.Text.Runs

/-!
This file compares the export of a message with its plain definition. Each exported entity shows the
text that the entity covers on its own, and the outcomes are those of the expressions alone,
evaluated one after the other with the dice of one seed. This holds of any stored entities: their
ranges may lie in any order, overlap, split a surrogate pair or leave the text.
-/

namespace DiceChat

/-- A trimmed text lacks the White_Space at its end and nothing else. -/
structure Trimmed (covered shown : List Char) : Prop where
  split : ∃ blank, covered = shown ++ blank ∧
    ∀ character ∈ blank, Text.isWhiteSpace character = true
  solid : ∀ last, shown.getLast? = some last → Text.isWhiteSpace last = false

theorem trimmed_trimRight (covered : List Char) : Trimmed covered (Text.trimRight covered) := by
  refine ⟨⟨(covered.reverse.takeWhile Text.isWhiteSpace).reverse, ?_, ?_⟩, ?_⟩
  · rw [Text.trimRight, ← List.reverse_append, List.takeWhile_append_dropWhile,
      List.reverse_reverse]
  · intro character member
    exact List.mem_takeWhile_imp (List.mem_reverse.mp member)
  · intro last isLast
    rw [Text.trimRight, List.getLast?_reverse] at isLast
    exact Text.stops_dropWhile Text.isWhiteSpace covered.reverse last isLast

/-- An exported body is of the kind of its entity, and a link keeps its target. -/
inductive EntityBody.ExportsAs : EntityBody → ExportBody → Prop where
  | text : ExportsAs .text .text
  | strong : ExportsAs .strong .strong
  | link (href : String) : ExportsAs (.link href) (.link href)
  | expr (node : Expr) (outcome : Outcome) : ExportsAs (.expr node) (.expr outcome)

/-- An expression shows its covered text trimmed, and all else shows it as it is. -/
def EntityBody.Shows (covered shown : List Char) : EntityBody → Prop
  | .expr _ => Trimmed covered shown
  | _ => shown = covered

/-- An exported entity has the range and the kind of its entity and shows the text that the entity
covers. A range that covers nothing in the text shows nothing. -/
structure Exported (text : List Char) (entity : Entity) (item : ExportEntity) : Prop where
  start : item.start = entity.start
  offset : item.offset = entity.offset
  body : entity.body.ExportsAs item.body
  shows : entity.body.Shows ((entity.slice text).getD []) item.text.toList

/-- The values of several dice are listed between brackets, and those of a single one are not. -/
inductive Evaluated.Lists : List Int64 → List Char → Prop where
  | none : Lists [] []
  | single (value : Int64) : Lists [value] []
  | several (first second : Int64) (others : List Int64) :
      Lists (first :: second :: others) (['=', '['] ++ Text.integer first.toInt ++
        ((second :: others).flatMap fun value => [',', ' '] ++ Text.integer value.toInt) ++ [']'])

/-- A result is shown with every intermediate result behind the part it belongs to. -/
inductive Evaluated.ShownAs : Evaluated → List Char → Prop where
  | num (value : Int64) : ShownAs (.num value) (Text.integer value.toInt)
  | roll {counter face : UInt32} {values : List Int64} {value : Int64} {listed : List Char}
      (lists : Lists values listed) :
      ShownAs (.roll counter face values value)
        (Text.natural counter.toNat ++ 'd' :: Text.natural face.toNat ++ listed ++
          '=' :: Text.integer value.toInt)
  | binary {operator : Operator} {left right : Evaluated} {value : Int64}
      {leftText rightText : List Char} (leftShown : ShownAs left leftText)
      (rightShown : ShownAs right rightText) :
      ShownAs (.binary operator left right value)
        (leftText ++ operator.symbol :: rightText ++ '=' :: Text.integer value.toInt)

/-- These are the outcomes of expressions that are evaluated one after the other with one generator.
A result comes with the text that shows it and a failure with its cause, and the draws of both are
taken. -/
inductive OutcomesOf : List Expr → Generator → List Outcome → Prop where
  | nil (generator : Generator) : OutcomesOf [] generator []
  | evaluated {node : Expr} {others : List Expr} {generator after : Generator} {result : Evaluated}
      {shown : List Char} {later : List Outcome}
      (ran : node.evaluate generator = (.ok result, after)) (shows : result.ShownAs shown)
      (rest : OutcomesOf others after later) :
      OutcomesOf (node :: others) generator (.evaluated result (String.ofList shown) :: later)
  | invalid {node : Expr} {others : List Expr} {generator after : Generator} {error : EvalError}
      {later : List Outcome} (ran : node.evaluate generator = (.error error, after))
      (rest : OutcomesOf others after later) :
      OutcomesOf (node :: others) generator (.invalid error :: later)

theorem EntityBody.exportsAs_toExport (body : EntityBody) (generator : Generator) :
    body.ExportsAs (body.toExport generator).1 := by
  cases body with
  | text => exact .text
  | strong => exact .strong
  | link href => exact .link href
  | expr node => exact .expr node _

theorem EntityBody.shows_exportText (body : EntityBody) (covered : List Char) :
    body.Shows covered (body.exportText covered) := by
  cases body with
  | text => rfl
  | strong => rfl
  | link href => rfl
  | expr node => exact trimmed_trimRight covered

/-- From every place of the walk and every state of the generator, the exported entities are those
of the text. -/
theorem exportFrom_exported {cursor : UnitCursor} {text front : List Char}
    (placed : cursor.Placed text front) (fits : Text.units text < UInt64.size)
    (generator : Generator) (entities : List Entity) :
    List.Forall₂ (Exported text) entities (exportFrom cursor generator entities) := by
  induction entities generalizing cursor front generator with
  | nil => exact .nil
  | cons entity others ih =>
      obtain ⟨covered, after, placedAfter⟩ := placed.slice fits entity
      rw [exportFrom]
      refine .cons ⟨rfl, rfl, entity.body.exportsAs_toExport generator, ?_⟩ (ih placedAfter _)
      rw [String.toList_ofList, covered]
      exact entity.body.shows_exportText _

/-- Listed values stand one after the other with a comma and a space between them. -/
theorem intercalate_cons (first : List Char) (others : List (List Char)) :
    [',', ' '].intercalate (first :: others) = first ++ others.flatMap ([',', ' '] ++ ·) := by
  induction others generalizing first with
  | nil => simp [List.intercalate]
  | cons second others ih =>
      have later := ih second
      rw [List.intercalate] at later ⊢
      rw [List.intersperse_cons_cons, List.flatten_cons, List.flatten_cons, later,
        List.flatMap_cons, List.append_assoc]

theorem Evaluated.lists_listed (values : List Int64) : Lists values (listed values) := by
  match values with
  | [] => exact .none
  | [value] => exact .single value
  | first :: second :: others =>
      have whole : listed (first :: second :: others) = ['=', '['] ++
          Text.integer first.toInt ++ ((second :: others).flatMap fun value =>
            [',', ' '] ++ Text.integer value.toInt) ++ [']'] := by
        change '=' :: '[' :: [',', ' '].intercalate ((first :: second :: others).map fun value =>
          Text.integer value.toInt) ++ [']'] = _
        rw [List.map_cons, intercalate_cons, List.flatMap_map]
        simp
      rw [whole]
      exact .several first second others

/-- A result is displayed as it is shown. -/
theorem Evaluated.shownAs_render (result : Evaluated) : result.ShownAs result.render := by
  induction result with
  | num value => exact .num value
  | roll counter face values value => exact .roll (lists_listed values)
  | binary operator left right value leftShown rightShown => exact .binary leftShown rightShown

theorem Evaluated.Lists.unique {values : List Int64} {first second : List Char}
    (isFirst : Lists values first) (isSecond : Lists values second) : first = second := by
  cases isFirst <;> cases isSecond <;> rfl

/-- A result is shown in one way. -/
theorem Evaluated.ShownAs.unique {result : Evaluated} {first second : List Char}
    (isFirst : result.ShownAs first) (isSecond : result.ShownAs second) : first = second := by
  induction isFirst generalizing second with
  | num value =>
      cases isSecond
      rfl
  | roll lists =>
      cases isSecond with
      | roll others => rw [lists.unique others]
  | binary _ _ leftSame rightSame =>
      cases isSecond with
      | binary left right => rw [leftSame left, rightSame right]

/-- Expressions have one list of outcomes from a state of the generator. -/
theorem OutcomesOf.unique {nodes : List Expr} {generator : Generator} {first second : List Outcome}
    (isFirst : OutcomesOf nodes generator first) (isSecond : OutcomesOf nodes generator second) :
    first = second := by
  induction isFirst generalizing second with
  | nil =>
      cases isSecond
      rfl
  | evaluated ran shows rest ih =>
      cases isSecond with
      | evaluated alsoRan alsoShows others =>
          obtain ⟨same, rfl⟩ := Prod.mk.inj (ran.symm.trans alsoRan)
          obtain rfl := Except.ok.inj same
          rw [shows.unique alsoShows, ih others]
      | invalid alsoRan others => exact absurd (ran.symm.trans alsoRan) (by simp)
  | invalid ran rest ih =>
      cases isSecond with
      | evaluated alsoRan _ _ => exact absurd (ran.symm.trans alsoRan) (by simp)
      | invalid alsoRan others =>
          obtain ⟨same, rfl⟩ := Prod.mk.inj (ran.symm.trans alsoRan)
          obtain rfl := Except.error.inj same
          rw [ih others]

/-- The exported outcomes are those of the expressions alone. -/
theorem exportFrom_outcomes (cursor : UnitCursor) (generator : Generator)
    (entities : List Entity) :
    OutcomesOf (entities.filterMap fun entity => entity.body.node?) generator
      ((exportFrom cursor generator entities).filterMap ExportEntity.outcome?) := by
  induction entities generalizing cursor generator with
  | nil => exact .nil generator
  | cons entity others ih =>
      obtain ⟨start, offset, body⟩ := entity
      rw [exportFrom, List.filterMap_cons, List.filterMap_cons]
      cases body with
      | text | strong | link => exact ih _ _
      | expr node =>
          have rest := ih (cursor.slice ⟨start, offset, .expr node⟩).2 (node.evaluate generator).2
          rcases ran : node.evaluate generator with ⟨error | result, after⟩
          · rw [ran] at rest
            simpa [EntityBody.toExport, ran, Outcome.ofResult, ExportEntity.outcome?,
              EntityBody.node?] using OutcomesOf.invalid ran rest
          · rw [ran] at rest
            simpa [EntityBody.toExport, ran, Outcome.ofResult, ExportEntity.outcome?,
              EntityBody.node?, Evaluated.display] using
              OutcomesOf.evaluated ran result.shownAs_render rest

/-- A text of a usual size has few code units. -/
theorem units_lt_of_short {text : String} (short : text.utf8ByteSize < 2 ^ 63) :
    Text.units text.toList < UInt64.size := by
  have bound := Text.units_le_bytes text.toList
  have size : UInt64.size = 2 ^ 64 := rfl
  rw [Text.bytes_toList] at bound
  omega

/-- For every stored message and every seed, the walk by positions never breaks down and finds what
each entity covers on its own, and the exported entities are those of the text. The outcomes are
those of the expressions alone, so any other message with these expressions has the same ones. -/
theorem toExport_plain (message : Message) (seed : Seed)
    (short : message.text.utf8ByteSize < 2 ^ 63) :
    (ByteCursor.ofText message.text.toList).slices message.entities =
        some (message.entities.map fun entity => entity.slice message.text.toList) ∧
      List.Forall₂ (Exported message.text.toList) message.entities (message.toExport seed) ∧
      OutcomesOf message.nodes (.ofSeed seed)
        ((message.toExport seed).filterMap ExportEntity.outcome?) ∧
      ∀ other : Message, other.nodes = message.nodes →
        (other.toExport seed).filterMap ExportEntity.outcome? =
          (message.toExport seed).filterMap ExportEntity.outcome? := by
  have fits := units_lt_of_short short
  have placed := UnitCursor.placed_ofText message.text.toList
  have outcomes (any : Message) : OutcomesOf any.nodes (.ofSeed seed)
      ((any.toExport seed).filterMap ExportEntity.outcome?) := exportFrom_outcomes _ _ _
  refine ⟨?_, exportFrom_exported placed fits _ _, outcomes message, ?_⟩
  · rw [← UnitCursor.inBytes_ofText]
    exact slices_inBytes placed fits message.entities
  · intro other same
    exact (same ▸ outcomes other).unique (outcomes message)

/-- The entities of this message lie behind each other's back, split a surrogate pair and end past
every position. One of its expressions divides by zero after it took a draw. -/
def shuffledMessage : Message :=
  ⟨"🎲 2d6 ", [⟨3, 4, .expr (.roll 2 6)⟩, ⟨1, 2, .strong⟩, ⟨0xFFFFFFFFFFFFFFFF, 9, .link "u"⟩,
    ⟨0, 2, .expr (.binary .div (.roll 1 6) (.num 0))⟩, ⟨0, 3, .text⟩,
    ⟨4, 1, .expr (.binary .add (.roll 1 20) (.num 3))⟩]⟩

/-- The last roll takes the fourth draw, behind the draw of the failure, and an entity that covers
nothing is exported with an empty text. -/
theorem toExport_plain_shuffled :
    shuffledMessage.text.utf8ByteSize < 2 ^ 63 ∧
      (ByteCursor.ofText shuffledMessage.text.toList).slices shuffledMessage.entities =
        some [some "2d6 ".toList, none, none, some "🎲".toList, some "🎲 ".toList,
          some "d".toList] ∧
      List.Forall₂ (Exported shuffledMessage.text.toList) shuffledMessage.entities
        (shuffledMessage.toExport ⟨7⟩) ∧
      (shuffledMessage.toExport ⟨7⟩).map ExportEntity.text = ["2d6", "", "", "🎲", "🎲 ", "d"] ∧
      (shuffledMessage.toExport ⟨7⟩).filterMap ExportEntity.outcome? =
        [.evaluated (.roll 2 6 [5, 3] 8) "2d6=[5, 3]=8", .invalid .divisionByZero,
          .evaluated (.binary .add (.roll 1 20 [11] 11) (.num 3) 14) "1d20=11+3=14"] ∧
      OutcomesOf [.roll 2 6, .binary .div (.roll 1 6) (.num 0),
          .binary .add (.roll 1 20) (.num 3)] (.ofSeed ⟨7⟩)
        [.evaluated (.roll 2 6 [5, 3] 8) "2d6=[5, 3]=8", .invalid .divisionByZero,
          .evaluated (.binary .add (.roll 1 20 [11] 11) (.num 3) 14) "1d20=11+3=14"] := by
  obtain ⟨slices, exported, outcomes, -⟩ := toExport_plain shuffledMessage ⟨7⟩ (by decide)
  have shown : (shuffledMessage.toExport ⟨7⟩).filterMap ExportEntity.outcome? =
      [.evaluated (.roll 2 6 [5, 3] 8) "2d6=[5, 3]=8", .invalid .divisionByZero,
        .evaluated (.binary .add (.roll 1 20 [11] 11) (.num 3) 14) "1d20=11+3=14"] := by
    decide +kernel
  rw [shown] at outcomes
  exact ⟨by decide, slices, exported, by decide +kernel, shown, outcomes⟩

end DiceChat
