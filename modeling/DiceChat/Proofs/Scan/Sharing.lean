import DiceChat.Scan.Owned
import DiceChat.Scan.Run

/-!
This file compares a run on cursors over the shared output with a run on states that own their
text. A cursor stands for a state as long as the output starts with the text of the state. What an
abandoned alternative wrote stands behind that text, so no later step of the run can see it.
-/

namespace DiceChat.Scan

/-- This cursor stands for a state. -/
def State.cursor (state : State) : Cursor :=
  ⟨Text.bytes state.text, Text.units state.text, state.rest, state.depth⟩

/-- The answer of a step on cursors agrees with the answer of a step on states: both fail and keep
the text before them in the output, or both succeed and the output starts with the new text. -/
inductive Agrees {Value : Type} (state : State) :
    Option (Option (Value × Cursor) × Output) → Option (Value × State) × Bool → Prop where
  | fails (written : Output) (kept : state.text <+: written.text) :
      Agrees state (some (none, written)) (none, written.tooDeep)
  | succeeds (written : Output) (value : Value) (next : State)
      (grown : state.text <+: next.text) (kept : next.text <+: written.text) :
      Agrees state (some (some (value, next.cursor), written)) (some (value, next), written.tooDeep)

/-- A step on cursors follows a step on states wherever the cursor stands for the state. -/
def Follows {Value : Type} (step : Step Value) (owned : OwnedStep Value) : Prop :=
  ∀ state output, state.text <+: output.text →
    Agrees state (step state.cursor output) (owned state output.tooDeep)

/-- A step that follows fails with the step on states or succeeds with it. -/
theorem Follows.cases {Value : Type} {step : Step Value} {owned : OwnedStep Value}
    (follows : Follows step owned) {state : State} {output : Output}
    (front : state.text <+: output.text) :
    (∃ written, step state.cursor output = some (none, written) ∧
      owned state output.tooDeep = (none, written.tooDeep) ∧ state.text <+: written.text) ∨
    ∃ written value next, step state.cursor output = some (some (value, next.cursor), written) ∧
      owned state output.tooDeep = (some (value, next), written.tooDeep) ∧
      state.text <+: next.text ∧ next.text <+: written.text := by
  have agrees := follows state output front
  generalize step state.cursor output = answer at agrees
  generalize owned state output.tooDeep = result at agrees
  cases agrees with
  | fails written kept => exact .inl ⟨written, rfl, rfl, kept⟩
  | succeeds written value next grown kept =>
      exact .inr ⟨written, value, next, rfl, rfl, grown, kept⟩

/-- The output holds the text of every state that its front spells. -/
theorem State.cutBytes_text {state : State} {output : Output} (front : state.text <+: output.text) :
    ∃ left, Text.cutBytes output.text state.cursor.textBytes = some (state.text, left) := by
  obtain ⟨left, whole⟩ := front
  exact ⟨left, (Text.cutBytes_eq_some _ _ _ _).mpr ⟨whole.symm, rfl⟩⟩

/-- A cursor shows the state it stands for. -/
theorem State.view_cursor {state : State} {output : Output} (front : state.text <+: output.text) :
    state.cursor.view output = some state.view := by
  obtain ⟨left, cut⟩ := cutBytes_text front
  rw [Cursor.view, Cursor.text?, cut]
  rfl

/-- Truncating to the text of a state leaves that text. -/
theorem State.truncate_cursor {state : State} {output : Output}
    (front : state.text <+: output.text) :
    output.truncate state.cursor.textBytes = some state.text := by
  rw [Output.truncate]
  split
  · rename_i short
    -- The output is no longer than its front, so it is that front.
    obtain ⟨left, whole⟩ := front
    have size : Text.bytes state.text + Text.bytes left ≤ Text.bytes state.text := by
      rw [← Text.bytes_append, whole]
      exact short
    have none : left = [] := (Text.measure_eq_zero Char.utf8Size_pos left).mp (by
      change Text.bytes left = 0
      omega)
    rw [← whole, none, List.append_nil]
  · obtain ⟨left, cut⟩ := cutBytes_text front
    rw [cut]
    rfl

/-- Appending at a cursor appends to the state it stands for and drops the rest of the output. -/
theorem State.append_cursor {state : State} {output : Output} (front : state.text <+: output.text)
    (added : List Char) :
    state.cursor.append added output =
      some (State.cursor { state with text := state.text ++ added },
        { output with text := state.text ++ added }) := by
  rw [Cursor.append, truncate_cursor front]
  simp [cursor]

/-- Edits only add to the text of a state. -/
theorem State.text_prefix_edit (edits : List Edit) (state : State) :
    state.text <+: (state.edit edits).text := by
  induction edits generalizing state with
  | nil => exact List.prefix_refl _
  | cons edit others ih =>
      cases edit with
      | append added =>
          exact (List.prefix_append _ added).trans (ih { state with text := state.text ++ added })
      | drop count => exact ih { state with rest := state.rest.drop count }

/-- Edits at a cursor edit the state it stands for. -/
theorem State.edit_cursor (edits : List Edit) (state : State) (output : Output)
    (front : state.text <+: output.text) :
    ∃ written, state.cursor.edit edits output = some ((state.edit edits).cursor, written) ∧
      written.tooDeep = output.tooDeep ∧ (state.edit edits).text <+: written.text := by
  induction edits generalizing state output with
  | nil => exact ⟨output, rfl, rfl, front⟩
  | cons edit others ih =>
      cases edit with
      | append added =>
          obtain ⟨written, edited, sameMark, kept⟩ :=
            ih { state with text := state.text ++ added }
              { output with text := state.text ++ added } (List.prefix_refl _)
          refine ⟨written, ?_, sameMark, kept⟩
          rw [Cursor.edit, append_cursor front, Option.bind_some]
          exact edited
      | drop count => exact ih { state with rest := state.rest.drop count } output front

section

variable {First Second Value : Type} {env : Env}

theorem follows_token (recognise : List Char → Option (Value × Nat)) :
    Follows (Parser.run env (.token recognise)) (Parser.runOwned env (.token recognise)) := by
  intro state output front
  rw [Parser.run, Parser.runOwned, show state.cursor.rest = state.rest from rfl]
  cases recognise state.rest with
  | none => exact .fails output front
  | some found =>
      exact .succeeds output found.1 { state with rest := state.rest.drop found.2 }
        (List.prefix_refl _) front

theorem follows_map {parser : Parser First} (change : First → Second)
    (follows : Follows (parser.run env) (parser.runOwned env)) :
    Follows (Parser.run env (.map change parser)) (Parser.runOwned env (.map change parser)) := by
  intro state output front
  rw [Parser.run, Parser.runOwned]
  rcases follows.cases front with
    ⟨written, shared, owned, kept⟩ | ⟨written, value, next, shared, owned, grown, kept⟩
  · rw [shared, owned]
    exact .fails written kept
  · rw [shared, owned]
    exact .succeeds written _ _ grown kept

theorem follows_and {first : Parser First} {second : Parser Second}
    (firstFollows : Follows (first.run env) (first.runOwned env))
    (secondFollows : Follows (second.run env) (second.runOwned env)) :
    Follows (Parser.run env (.and first second)) (Parser.runOwned env (.and first second)) := by
  intro state output front
  rw [Parser.run, Parser.runOwned]
  rcases firstFollows.cases front with
    ⟨written, shared, owned, kept⟩ | ⟨middle, left, next, shared, owned, grown, kept⟩
  · rw [shared, owned]
    exact .fails written kept
  · rw [shared, owned]
    dsimp only
    rcases secondFollows.cases kept with
      ⟨written, shared, owned, kept⟩ | ⟨written, right, last, shared, owned, later, kept⟩
    · rw [shared, owned]
      exact .fails written (grown.trans kept)
    · rw [shared, owned]
      exact .succeeds written (left, right) last (grown.trans later) kept

theorem follows_maybe {parser : Parser Value}
    (follows : Follows (parser.run env) (parser.runOwned env)) :
    Follows (Parser.run env (.maybe parser)) (Parser.runOwned env (.maybe parser)) := by
  intro state output front
  rw [Parser.run, Parser.runOwned]
  rcases follows.cases front with
    ⟨written, shared, owned, kept⟩ | ⟨written, value, next, shared, owned, grown, kept⟩
  · rw [shared, owned]
    exact .succeeds written none state (List.prefix_refl _) kept
  · rw [shared, owned]
    exact .succeeds written _ _ grown kept

theorem follows_either {first second : Parser Value}
    (firstFollows : Follows (first.run env) (first.runOwned env))
    (secondFollows : Follows (second.run env) (second.runOwned env)) :
    Follows (Parser.run env (.either first second))
      (Parser.runOwned env (.either first second)) := by
  intro state output front
  rw [Parser.run, Parser.runOwned]
  rcases firstFollows.cases front with
    ⟨written, shared, owned, kept⟩ | ⟨written, value, next, shared, owned, grown, kept⟩
  · rw [shared, owned]
    -- The second alternative starts over with what the first one left in the output.
    exact secondFollows state written kept
  · rw [shared, owned]
    exact .succeeds written _ _ grown kept

theorem follows_nested {parser : Parser Value}
    (follows : Follows (parser.run env) (parser.runOwned env)) :
    Follows (Parser.run env (.nested parser)) (Parser.runOwned env (.nested parser)) := by
  intro state output front
  rw [Parser.run, Parser.runOwned, show state.cursor.depth = state.depth from rfl]
  split
  · exact .fails output.markTooDeep front
  · have deeper : state.cursor.atDepth (state.depth + 1) =
        State.cursor { state with depth := state.depth + 1 } := rfl
    rw [deeper]
    have deepFront : (State.text { state with depth := state.depth + 1 }) <+: output.text := front
    rcases follows.cases deepFront with
      ⟨written, shared, owned, kept⟩ | ⟨written, value, next, shared, owned, grown, kept⟩
    · rw [shared, owned]
      exact .fails written kept
    · rw [shared, owned]
      exact .succeeds written value { next with depth := state.depth } grown kept

theorem follows_andThen {parser : Parser First} (callback : Callback First Second)
    (follows : Follows (parser.run env) (parser.runOwned env)) :
    Follows (Parser.run env (.andThen parser callback))
      (Parser.runOwned env (.andThen parser callback)) := by
  intro state output front
  rw [Parser.run, Parser.runOwned]
  rcases follows.cases front with
    ⟨written, shared, owned, kept⟩ | ⟨written, value, next, shared, owned, grown, kept⟩
  · rw [shared, owned]
    exact .fails written kept
  · rw [shared, owned]
    dsimp only
    rw [State.view_cursor kept, Option.bind_some]
    obtain ⟨final, edited, sameMark, finalKept⟩ :=
      State.edit_cursor (callback env next.view value).1 next written kept
    have finalGrown := grown.trans (State.text_prefix_edit (callback env next.view value).1 next)
    rw [edited, ← sameMark]
    cases (callback env next.view value).2 with
    | none => exact .fails final (finalGrown.trans finalKept)
    | some changed => exact .succeeds final changed _ finalGrown finalKept

/-- A repetition on cursors ends like the repetition on states. A success that takes nothing is
dropped on both sides, and so is the text it wrote. -/
theorem repeat_agrees {step : Step Value} {owned : OwnedStep Value} (follows : Follows step owned)
    {state : State} {output : Output} (front : state.text <+: output.text) :
    ∃ values last written, repeatStep step state.cursor output =
        some ((values, last.cursor), written) ∧
      repeatOwned owned state output.tooDeep = ((values, last), written.tooDeep) ∧
      state.text <+: last.text ∧ last.text <+: written.text := by
  induction size : state.rest.length using Nat.strongRecOn generalizing state output with
  | ind size ih =>
      rw [repeatStep, repeatOwned]
      rcases follows.cases front with
        ⟨written, shared, isOwned, kept⟩ | ⟨written, value, next, shared, isOwned, grown, kept⟩
      · rw [shared, isOwned]
        exact ⟨[], state, written, rfl, rfl, List.prefix_refl _, kept⟩
      · rw [shared, isOwned]
        dsimp only
        rw [show next.cursor.rest = next.rest from rfl,
          show state.cursor.rest = state.rest from rfl]
        split
        · rename_i shorter
          obtain ⟨values, last, final, repeated, isRepeated, later, finalKept⟩ :=
            ih next.rest.length (by omega) kept rfl
          rw [repeated, isRepeated]
          exact ⟨value :: values, last, final, rfl, rfl, grown.trans later, finalKept⟩
        · exact ⟨[], state, written, rfl, rfl, List.prefix_refl _, grown.trans kept⟩

theorem follows_many {parser : Parser Value}
    (follows : Follows (parser.run env) (parser.runOwned env)) :
    Follows (Parser.run env (.many parser)) (Parser.runOwned env (.many parser)) := by
  intro state output front
  rw [Parser.run, Parser.runOwned]
  obtain ⟨values, last, written, shared, owned, grown, kept⟩ := repeat_agrees follows front
  rw [shared, owned]
  exact .succeeds written _ _ grown kept

end

/-- Every parser runs on cursors as it runs on states. -/
theorem Parser.run_follows {Value : Type} (env : Env) (parser : Parser Value) :
    Follows (parser.run env) (parser.runOwned env) := by
  induction parser with
  | token recognise => exact follows_token recognise
  | map change parser ih => exact follows_map change ih
  | and first second firstFollows secondFollows => exact follows_and firstFollows secondFollows
  | maybe parser ih => exact follows_maybe ih
  | many parser ih => exact follows_many ih
  | never => exact fun state output front => .fails output front
  | either first second firstFollows secondFollows =>
      exact follows_either firstFollows secondFollows
  | nested parser ih => exact follows_nested ih
  | andThen parser callback ih => exact follows_andThen callback ih

/-- A run on cursors shows its value, the view of its last cursor and the mark. It shows nothing if
a cursor does not fit the output. -/
def observe {Value : Type} (answer : Option (Option (Value × Cursor) × Output)) :
    Option (Option (Value × View) × Bool) :=
  answer.bind fun (result, written) =>
    match result with
    | none => some (none, written.tooDeep)
    | some (value, last) =>
        (last.view written).map fun view => (some (value, view), written.tooDeep)

/-- A run on states shows its value, the view of its last state and the mark. -/
def observeOwned {Value : Type} (answer : Option (Value × State) × Bool) :
    Option (Value × View) × Bool :=
  (answer.1.map fun (value, last) => (value, last.view), answer.2)

/-- Agreeing answers show the same, and the text before them is still there. -/
theorem Agrees.observe_eq {Value : Type} {state : State}
    {answer : Option (Option (Value × Cursor) × Output)} {owned : Option (Value × State) × Bool}
    (agrees : Agrees state answer owned) :
    observe answer = some (observeOwned owned) ∧
      ∀ result written, answer = some (result, written) →
        state.cursor.view written = some state.view := by
  cases agrees with
  | fails written kept =>
      refine ⟨rfl, fun result final same => ?_⟩
      obtain ⟨-, rfl⟩ := Prod.mk.injEq .. ▸ Option.some.inj same
      exact State.view_cursor kept
  | succeeds written value next grown kept =>
      refine ⟨?_, fun result final same => ?_⟩
      · change (next.cursor.view written).map _ = _
        rw [State.view_cursor kept]
        rfl
      · obtain ⟨-, rfl⟩ := Prod.mk.injEq .. ▸ Option.some.inj same
        exact State.view_cursor (grown.trans kept)

/-- Sharing the output cannot be observed. From any text, source and depth, a parser shows the same
on cursors over the shared output as on states that own their text, and a parser that fails leaves
the cursor it was given with the same text and offset. -/
theorem observe_run_eq_observeOwned {Value : Type} (parser : Parser Value) (env : Env)
    (source text : List Char) (depth : Nat) (tooDeep : Bool) :
    ∃ start output, (Cursor.ofSource source).append text ⟨[], tooDeep⟩ = some (start, output) ∧
      observe (parser.run env (start.atDepth depth) output) =
        some (observeOwned (parser.runOwned env ⟨text, source, depth⟩ tooDeep)) ∧
      ∀ written, parser.run env (start.atDepth depth) output = some (none, written) →
        (start.atDepth depth).view written = some ⟨text, Text.units text, source, depth⟩ := by
  have fresh : State.text ⟨[], source, 0⟩ <+: Output.text ⟨[], tooDeep⟩ := List.prefix_refl _
  have opened : (Cursor.ofSource source).append text ⟨[], tooDeep⟩ =
      some (State.cursor ⟨text, source, 0⟩, ⟨text, tooDeep⟩) :=
    State.append_cursor fresh text
  have agrees := parser.run_follows env ⟨text, source, depth⟩ ⟨text, tooDeep⟩ (List.prefix_refl _)
  obtain ⟨shown, kept⟩ := agrees.observe_eq
  exact ⟨_, _, opened, shown, fun written failed => kept none written failed⟩

end DiceChat.Scan
