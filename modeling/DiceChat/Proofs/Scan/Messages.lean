import DiceChat.Message.Parse
import DiceChat.Proofs.Message.Reading
import DiceChat.Proofs.Scan.Expressions
import DiceChat.Proofs.Scan.Threading
import DiceChat.Scan.Message

/-!
This file compares the scan of a message with the reader of its pieces. Every rule emits the entity
of the piece that it reads, at the end of the text so far. The loop over the rules therefore emits
the layout of the pieces and writes their text, and the scan is the parser of messages.
-/

namespace DiceChat.Scan

open Grammar Text

variable {Value : Type} {env : Env} {state : State}

/-- This is the entity of a piece at the end of a text. -/
def entityAt (face : UInt32) (start : Nat) (piece : Piece) : Entity :=
  ⟨UInt64.ofNat start, UInt64.ofNat (units piece.text), piece.mark.body face⟩

/-- This is the state behind an emitted piece. -/
def State.emit (state : State) (piece : Piece) (rest : List Char) : State :=
  { state with text := state.text ++ piece.text, rest }

/-- An answer emits a piece if there is one: the entity covers the text of the piece, which is
appended to the text of the state. -/
inductive Emits (face : UInt32) (state : State) :
    Option (Piece × List Char) → Option (Option (Entity × Cursor) × Output) → Prop where
  | nothing (written : Output) (kept : state.text <+: written.text) :
      Emits face state none (some (none, written))
  | piece (piece : Piece) (rest : List Char) (written : Output)
      (kept : state.text ++ piece.text <+: written.text) :
      Emits face state (some (piece, rest))
        (some (some (entityAt face (units state.text) piece, (state.emit piece rest).cursor),
          written))

theorem Emits.answer_none {face : UInt32}
    {answer : Option (Option (Entity × Cursor) × Output)} (emits : Emits face state none answer) :
    ∃ written, answer = some (none, written) ∧ state.text <+: written.text := by
  cases emits with
  | nothing written kept => exact ⟨written, rfl, kept⟩

theorem Emits.answer_some {face : UInt32} {piece : Piece} {rest : List Char}
    {answer : Option (Option (Entity × Cursor) × Output)}
    (emits : Emits face state (some (piece, rest)) answer) :
    ∃ written, answer = some (some (entityAt face (units state.text) piece,
        (state.emit piece rest).cursor), written) ∧
      state.text ++ piece.text <+: written.text := by
  cases emits with
  | piece _ _ written kept => exact ⟨written, rfl, kept⟩

/-- A parser emits the piece of what it recognises. -/
theorem Recognises.emits {parser : Parser Value} {reader : List Char → Option (Value × List Char)}
    (recognises : Recognises env parser reader) {face : UInt32} {text : Value → List Char}
    {body : Value → EntityBody} (piece : Value → List Char → Piece)
    (sameText : ∀ value rest, (piece value rest).text = text value)
    (sameBody : ∀ value rest, (piece value rest).mark.body face = body value) {output : Output}
    (front : state.text <+: output.text) :
    Emits face state ((reader state.rest).map fun (value, rest) => (piece value rest, rest))
      ((parser.entity text body).run env state.cursor output) := by
  obtain ⟨written, answer, kept, -⟩ := recognises.run front
  rw [Parser.entity, Parser.run, answer]
  rcases reader state.rest with _ | ⟨value, rest⟩
  · exact .nothing written kept
  · have restKept : State.text { state with rest } <+: written.text := kept
    dsimp only [Option.map_some]
    rw [State.view_cursor restKept, Option.bind_some]
    dsimp only [Cursor.edit]
    rw [State.append_cursor restKept, ← sameText value rest, ← sameBody value rest]
    exact .piece (piece value rest) rest _ (List.prefix_refl _)

/-- What a rule leaves is a part of the source. -/
theorem suffix_of_read (rule : Rule) {input rest : List Char} {piece : Piece}
    (found : rule.read input = some (piece, rest)) : rest <:+ input :=
  ⟨piece.source, (Rule.read_split found).1.symm⟩

theorem recognises_strong : Recognises env (.ofReader Markup.strong) Markup.strong :=
  recognises_ofReader fun _ _ _ found => suffix_of_read .strong (congrArg (Option.map _) found)

theorem recognises_link : Recognises env (.ofReader Markup.link) Markup.link :=
  recognises_ofReader fun _ _ _ found => suffix_of_read .link (congrArg (Option.map _) found)

theorem recognises_url : Recognises env (.ofReader Markup.url) Markup.url :=
  recognises_ofReader fun _ _ _ found => suffix_of_read .autoUrl (congrArg (Option.map _) found)

/-- A cursor advances over a front of its source. -/
theorem State.advance_cursor {taken rest : List Char} (whole : state.rest = taken ++ rest) :
    state.cursor.advance (bytes taken) = some (State.cursor { state with rest }) := by
  have cut := (cutBytes_eq_some state.rest taken rest (bytes taken)).mpr ⟨whole, rfl⟩
  rw [Cursor.advance]
  change (cutBytes state.rest (bytes taken)).map _ = _
  rw [cut]
  rfl

/-- A marked run keeps the run of tokens as text. -/
theorem emits_fallback {face : UInt32} {kept : Output} (front : state.text <+: kept.text) :
    Emits face state
      (if tokenRun state.rest = [] then none
        else some (.plain (tokenRun state.rest), afterTokens state.rest))
      (if tokenRun state.rest = [] then some (none, kept)
        else (state.cursor.advance (bytes (tokenRun state.rest))).bind fun next =>
          (next.append (tokenRun state.rest) kept).map fun (last, final) =>
            (some (⟨UInt64.ofNat state.cursor.offset, UInt64.ofNat (units (tokenRun state.rest)),
              .text⟩, last), final)) := by
  by_cases empty : tokenRun state.rest = []
  · rw [if_pos empty, if_pos empty]
    exact .nothing kept front
  · have behind : State.text { state with rest := afterTokens state.rest } <+: kept.text := front
    rw [if_neg empty, if_neg empty, State.advance_cursor (tokenRun_append state.rest).symm,
      Option.bind_some, State.append_cursor behind]
    exact .piece (.plain _) _ _ (List.prefix_refl _)

/-- An expression is emitted with its own source as text. -/
theorem emits_expression {value : WrittenExpr} {rest : List Char}
    (reads : expr maxExprDepth state.rest = .read value rest) {face : UInt32} {kept : Output}
    (front : state.text <+: kept.text) :
    Emits face state
      (some (⟨before state.rest rest, before state.rest rest, .expr value⟩, rest))
      ((state.cursor.consumedSince (State.cursor { state with rest })).bind fun consumed =>
        ((State.cursor { state with rest }).append consumed kept).map fun (last, final) =>
          (some (⟨UInt64.ofNat (units state.text), UInt64.ofNat (units consumed),
            .expr (value.fill face)⟩, last), final)) := by
  obtain ⟨text, whole, -⟩ := expr_written reads
  have leads : state.Leads { state with rest } := ⟨⟨text, whole.symm⟩, rfl, List.prefix_refl _⟩
  obtain ⟨taken, split, consumed⟩ := leads.consumedSince
  have isTaken : before state.rest rest = taken := split ▸ before_append taken rest
  have behind : State.text { state with rest } <+: kept.text := front
  rw [consumed, Option.bind_some, State.append_cursor behind, isTaken]
  exact .piece ⟨taken, taken, .expr value⟩ rest _ (List.prefix_refl _)

/-- The mark is clear when an expression is read, so a mark after it comes from the expression. -/
theorem expressionStep_emits {output : Output} (front : state.text <+: output.text)
    (start : state.depth = 0) :
    Emits env.defaultFace state (Rule.readExpression state.rest)
      (expressionStep env state.cursor output) := by
  have clear : state.text <+: output.takeTooDeep.2.text := front
  obtain ⟨result, marked, written, answer, kept, isMark, reads⟩ := tells_exprStep clear start
  have keptText : state.text <+: written.takeTooDeep.2.text := kept
  unfold expressionStep Rule.readExpression
  rw [answer, reads, Option.bind_some]
  dsimp only
  rw [show written.takeTooDeep.1 = marked from isMark]
  cases marked with
  | true => exact emits_fallback keptText
  | false =>
      rcases result with _ | ⟨value, rest⟩
      · exact .nothing _ keptText
      · have isNum : (value.fill env.defaultFace).isNum = value.isNum :=
          Formula.isNum_mapFace _ value
        dsimp only [told, Option.map_some, Reading.ofOption]
        rw [isNum]
        by_cases number : value.isNum = true
        · simp only [number, if_true, Bool.false_eq_true, if_false]
          exact .nothing _ keptText
        · simp only [number, Bool.false_eq_true, if_false]
          exact emits_expression reads keptText

theorem ruleStep_emits (rule : Rule) {output : Output} (front : state.text <+: output.text)
    (start : state.depth = 0) :
    Emits env.defaultFace state (rule.read state.rest) (ruleStep env rule state.cursor output) := by
  cases rule with
  | strong =>
      exact recognises_strong.emits
        (fun content rest => ⟨before state.rest rest, content, .strong⟩)
        (fun _ _ => rfl) (fun _ _ => rfl) front
  | link =>
      exact recognises_link.emits
        (fun found rest => ⟨before state.rest rest, found.title, .link found.href⟩)
        (fun _ _ => rfl) (fun _ _ => rfl) front
  | autoUrl =>
      exact recognises_url.emits (fun address _ => ⟨address, address, .link address⟩)
        (fun _ _ => rfl) (fun _ _ => rfl) front
  | expression => exact expressionStep_emits front start
  | span =>
      exact recognises_plain.emits (fun step _ => .plain step)
        (fun _ _ => rfl) (fun _ _ => rfl) front

/-- The rules are tried in their order, so the first piece is emitted. -/
theorem choice_emits (rules : List Rule) {output : Output} (front : state.text <+: output.text)
    (start : state.depth = 0) :
    Emits env.defaultFace state (firstPiece rules state.rest)
      (Step.choice (rules.map (ruleStep env)) state.cursor output) := by
  induction rules generalizing output with
  | nil => exact .nothing output front
  | cons rule others ih =>
      have emits : Emits env.defaultFace state _ _ := ruleStep_emits rule front start
      change Emits _ _ (List.findSome? _ (rule :: others))
        ((ruleStep env rule).orElse (.choice (others.map (ruleStep env))) state.cursor output)
      rw [List.findSome?_cons, Step.orElse]
      generalize ruleStep env rule state.cursor output = answer at emits
      generalize rule.read state.rest = found at emits
      cases emits with
      | nothing written kept => exact ih kept
      | piece piece rest written kept => exact .piece piece rest written kept

/-- A step that takes some source is repeated from where it ends. -/
theorem repeatStep_of_shorter {step : Step Value} {cursor next : Cursor} {output written : Output}
    {value : Value} (answer : step cursor output = some (some (value, next), written))
    (shorter : next.rest.length < cursor.rest.length) :
    repeatStep step cursor output =
      (repeatStep step next written).map fun ((values, last), final) =>
        ((value :: values, last), final) := by
  rw [repeatStep, answer]
  exact if_pos shorter

/-- The loop over the rules emits the layout of the pieces and appends their text. -/
theorem repeatStep_choice (rules : List Rule) (text rest : List Char) {output : Output}
    (front : text <+: output.text) :
    ∃ written, repeatStep (.choice (rules.map (ruleStep env))) (State.cursor ⟨text, rest, 0⟩)
        output = some ((layout env.defaultFace (units text) (readPieces rules rest).1,
          State.cursor ⟨text ++ textOf (readPieces rules rest).1, (readPieces rules rest).2, 0⟩),
          written) ∧
      text ++ textOf (readPieces rules rest).1 <+: written.text := by
  induction rest using firstPiece_induction rules generalizing text output with
  | last rest missing =>
      have emits : Emits env.defaultFace ⟨text, rest, 0⟩ _ _ := choice_emits rules front rfl
      rw [missing] at emits
      obtain ⟨written, answer, kept⟩ := emits.answer_none
      rw [repeatStep, answer, readPieces_of_none missing]
      exact ⟨written, by simp [layout, textOf], by simpa [textOf] using kept⟩
  | step rest piece later found ih =>
      have emits : Emits env.defaultFace ⟨text, rest, 0⟩ _ _ := choice_emits rules front rfl
      rw [found] at emits
      obtain ⟨written, answer, kept⟩ := emits.answer_some
      obtain ⟨final, loop, finalKept⟩ := ih (text ++ piece.text) kept
      have texts : textOf (piece :: (readPieces rules later).1) =
          piece.text ++ textOf (readPieces rules later).1 := List.flatMap_cons
      rw [repeatStep_of_shorter answer (firstPiece_shorter found), readPieces_of_some found, texts,
        ← List.append_assoc]
      refine ⟨final, ?_, finalKept⟩
      rw [State.emit, loop, units_append]
      rfl

/-- One more piece is laid out behind the text of the others. -/
theorem layout_concat (face : UInt32) (start : Nat) (pieces : List Piece) (last : Piece) :
    layout face start (pieces ++ [last]) =
      layout face start pieces ++ [entityAt face (start + units (textOf pieces)) last] := by
  induction pieces generalizing start with
  | nil => rfl
  | cons piece others ih =>
      have texts : textOf (piece :: others) = piece.text ++ textOf others := List.flatMap_cons
      rw [List.cons_append, layout, layout, ih, texts, units_append, Nat.add_assoc,
        List.cons_append]

/-- A cursor reads the text of the state it stands for. -/
theorem State.text?_cursor {output : Output} (front : state.text <+: output.text) :
    state.cursor.text? output = some state.text := by
  obtain ⟨left, cut⟩ := State.cutBytes_text front
  rw [Cursor.text?, cut]
  rfl

/-- Every piece becomes one entity. -/
theorem length_layout (face : UInt32) (start : Nat) (pieces : List Piece) :
    (layout face start pieces).length = pieces.length := by
  induction pieces generalizing start with
  | nil => rfl
  | cons piece others ih => rw [layout, List.length_cons, ih, List.length_cons]

/-- What is left becomes a last piece of text. -/
theorem keepRest_of_filled (face : UInt32) (found : List Piece) {left : List Char}
    (filled : left ≠ []) {written : Output} (front : textOf found <+: written.text) :
    keepRest (layout face 0 found) (State.cursor ⟨textOf found, left, 0⟩) written =
      some ((layout face 0 (found ++ [.plain left]),
        State.cursor ⟨textOf (found ++ [.plain left]), [], 0⟩),
        { written with text := textOf (found ++ [.plain left]) }) := by
  have texts : textOf (found ++ [.plain left]) = textOf found ++ left := by
    simp [textOf, Piece.plain]
  have opened : keepRest (layout face 0 found) (State.cursor ⟨textOf found, left, 0⟩) written =
      ((State.cursor ⟨textOf found, left, 0⟩).advance (bytes left)).bind fun next =>
        (next.append left written).map fun (last, final) =>
          ((layout face 0 found ++ [entityAt face (units (textOf found)) (.plain left)], last),
            final) := if_neg filled
  have advanced : (State.cursor ⟨textOf found, left, 0⟩).advance (bytes left) =
      some (State.cursor ⟨textOf found, [], 0⟩) :=
    State.advance_cursor (List.append_nil left).symm
  have behind : State.text ⟨textOf found, [], 0⟩ <+: written.text := front
  rw [opened, advanced, Option.bind_some, State.append_cursor behind, layout_concat, texts,
    Nat.zero_add]
  rfl

/-- Behind the loop the entities are the layout of all pieces and the text is theirs. -/
theorem keepRest_readPieces (rules : List Rule) (source : List Char) (face : UInt32)
    {written : Output} (front : textOf (readPieces rules source).1 <+: written.text) :
    ∃ last final, keepRest (layout face 0 (readPieces rules source).1)
        (State.cursor ⟨textOf (readPieces rules source).1, (readPieces rules source).2, 0⟩)
        written = some ((layout face 0 (pieces rules source), State.cursor last), final) ∧
      last.text = textOf (pieces rules source) ∧ last.text <+: final.text := by
  unfold pieces
  generalize readPieces rules source = result at *
  split
  · rename_i found
    exact ⟨⟨textOf found, [], 0⟩, written, if_pos rfl, rfl, front⟩
  · rename_i found left filled
    exact ⟨⟨textOf (found ++ [.plain left]), [], 0⟩, _, keepRest_of_filled face found filled front,
      rfl, List.prefix_refl _⟩

/-- The scan reads what the pieces say, with any list of rules. It never meets a cursor that does
not fit its output. -/
theorem scanWith_eq_parseWith (rules : List Rule) (env : Env) (source : List Char) :
    scanWith rules env source =
      some (parseWith rules env.defaultFace source, (pieces rules source).length) := by
  by_cases empty : source = []
  · subst empty
    have missing : firstPiece rules [] = none := by
      rw [Option.eq_none_iff_forall_ne_some]
      intro found same
      exact absurd (firstPiece_shorter same) (Nat.not_lt_zero _)
    have none : pieces rules [] = [] := by rw [pieces, readPieces_of_none missing]
    rw [scanWith, if_pos rfl, parseWith, none]
    rfl
  · have begins : [] <+: ({} : Output).text := List.nil_prefix
    obtain ⟨written, loop, kept⟩ := repeatStep_choice rules [] source begins
    obtain ⟨last, final, whole, isText, shown⟩ :=
      keepRest_readPieces rules source env.defaultFace kept
    rw [scanWith, if_neg empty, show Cursor.ofSource source = State.cursor ⟨[], source, 0⟩ from rfl,
      loop, Option.bind_some]
    dsimp only [List.nil_append]
    rw [show units [] = 0 from rfl, whole, Option.bind_some]
    dsimp only
    rw [State.text?_cursor shown, Option.map_some, isText, length_layout, parseWith]

/-- The scan is the parser of messages, and counts their entities before text is merged. -/
theorem scan_eq_parse (env : Env) (source : String) :
    scan env source.toList = some (parse env source, (report env source).rawEntities) :=
  scanWith_eq_parseWith _ env source.toList

end DiceChat.Scan
