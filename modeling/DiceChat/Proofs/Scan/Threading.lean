import DiceChat.Proofs.Scan.Sharing

/-!
This file says what a parser does to the state that is threaded through it. A success only moves
forward in the source, comes back to the depth it started at and only adds to the text. The mark of
a scan that went too deep stays once it is set. Inside a run each parser works as deep as the
nestings around it, and under a nesting that is never deeper than the bound.
-/

namespace DiceChat

/-- A suffix with fewer characters has fewer bytes. -/
theorem Text.bytes_lt_of_suffix {rest whole : List Char} (suffix : rest <:+ whole)
    (shorter : rest.length < whole.length) : Text.bytes rest < Text.bytes whole := by
  obtain ⟨taken, rfl⟩ := suffix
  have filled : taken ≠ [] := by
    rintro rfl
    exact absurd shorter (by simp)
  have positive : Text.bytes taken ≠ 0 := fun zero =>
    filled ((Text.measure_eq_zero Char.utf8Size_pos taken).mp zero)
  rw [Text.bytes_append]
  omega

namespace Scan

/-- A state leads to another one that has less or the same source before it, stands at the same
depth and has kept the text. -/
structure State.Leads (state next : State) : Prop where
  rest : next.rest <:+ state.rest
  depth : next.depth = state.depth
  text : state.text <+: next.text

namespace State

theorem Leads.refl (state : State) : state.Leads state :=
  ⟨List.suffix_refl _, rfl, List.prefix_refl _⟩

theorem Leads.trans {first second third : State} (early : first.Leads second)
    (late : second.Leads third) : first.Leads third :=
  ⟨late.rest.trans early.rest, late.depth.trans early.depth, early.text.trans late.text⟩

/-- Edits append to the text and drop source from the front. -/
theorem leads_edit (edits : List Edit) (state : State) : state.Leads (state.edit edits) := by
  induction edits generalizing state with
  | nil => exact .refl state
  | cons edit others ih =>
      cases edit with
      | append added =>
          have appended : state.Leads { state with text := state.text ++ added } :=
            ⟨List.suffix_refl _, rfl, List.prefix_append _ added⟩
          exact appended.trans (ih _)
      | drop count =>
          have dropped : state.Leads { state with rest := state.rest.drop count } :=
            ⟨List.drop_suffix count _, rfl, List.prefix_refl _⟩
          exact dropped.trans (ih _)

end State

/-- An answer threads a state through: it keeps a mark that was set, and a success comes from a
state that the given one leads to. -/
structure Threads {Value : Type} (state : State) (mark : Bool)
    (answer : Option (Value × State) × Bool) : Prop where
  marked : mark = true → answer.2 = true
  leads : ∀ value next, answer.1 = some (value, next) → state.Leads next

section

variable {First Second Value : Type} {state : State} {mark : Bool}

/-- Whatever becomes of the value, the state is threaded through. -/
theorem Threads.map {answer : Option (First × State) × Bool} (threads : Threads state mark answer)
    (change : First → Second) :
    Threads state mark (answer.1.map fun (value, next) => (change value, next), answer.2) := by
  refine ⟨threads.marked, fun value next success => ?_⟩
  obtain ⟨⟨value, last⟩, found, pair⟩ := Option.map_eq_some_iff.mp success
  obtain ⟨-, rfl⟩ := Prod.mk.inj pair
  exact threads.leads value last found

/-- A later answer threads on from an earlier success. -/
theorem Threads.after {middle : State} {between : Bool} {answer : Option (Value × State) × Bool}
    (threads : Threads middle between answer) (leads : state.Leads middle)
    (kept : mark = true → between = true) : Threads state mark answer :=
  ⟨fun set => threads.marked (kept set),
    fun value next success => leads.trans (threads.leads value next success)⟩

/-- A failure only has to keep the mark. -/
theorem threads_none {marked : Bool} (kept : mark = true → marked = true) :
    Threads state mark ((none : Option (Value × State)), marked) :=
  ⟨kept, fun _ _ success => nomatch success⟩

theorem threads_some {value : Value} {next : State} {marked : Bool} (leads : state.Leads next)
    (kept : mark = true → marked = true) : Threads state mark (some (value, next), marked) := by
  refine ⟨kept, fun other last success => ?_⟩
  obtain ⟨-, rfl⟩ := Prod.mk.inj (Option.some.inj success)
  exact leads

/-- A repetition of steps that thread the state through does so too. -/
theorem threads_repeatOwned {owned : OwnedStep Value}
    (threads : ∀ state mark, Threads state mark (owned state mark)) (state : State) (mark : Bool) :
    Threads state mark
      (some (repeatOwned owned state mark).1, (repeatOwned owned state mark).2) := by
  induction size : state.rest.length using Nat.strongRecOn generalizing state mark with
  | ind size ih =>
      have step := threads state mark
      rw [repeatOwned]
      split
      · rename_i marked failed
        rw [failed] at step
        exact threads_some (.refl state) step.marked
      · rename_i value next marked succeeded
        rw [succeeded] at step
        split
        · rename_i shorter
          have later := ih next.rest.length (by omega) next marked rfl
          exact (later.map (value :: ·)).after (step.leads value next rfl) step.marked
        · exact threads_some (.refl state) step.marked

end

/-- Every parser threads the state through. -/
theorem Parser.runOwned_threads {Value : Type} (env : Env) (parser : Parser Value) (state : State)
    (mark : Bool) : Threads state mark (parser.runOwned env state mark) := by
  induction parser generalizing state mark with
  | token recognise =>
      rw [runOwned]
      cases recognise state.rest with
      | none => exact threads_none id
      | some found => exact threads_some ⟨List.drop_suffix _ _, rfl, List.prefix_refl _⟩ id
  | map change parser ih =>
      rw [runOwned]
      exact (ih state mark).map change
  | and first second firstThreads secondThreads =>
      have threads := firstThreads state mark
      rw [runOwned]
      split
      · rename_i marked failed
        rw [failed] at threads
        exact threads_none threads.marked
      · rename_i left middle marked succeeded
        rw [succeeded] at threads
        have later := (secondThreads middle marked).map (left, ·)
        exact later.after (threads.leads left middle rfl) threads.marked
  | maybe parser ih =>
      have threads := ih state mark
      rw [runOwned]
      split
      · rename_i marked failed
        rw [failed] at threads
        exact threads_some (.refl state) threads.marked
      · rename_i value next marked succeeded
        rw [succeeded] at threads
        exact threads_some (threads.leads value next rfl) threads.marked
  | many parser ih =>
      rw [runOwned]
      exact threads_repeatOwned ih state mark
  | never => exact threads_none id
  | either first second firstThreads secondThreads =>
      have threads := firstThreads state mark
      rw [runOwned]
      split
      · rename_i marked failed
        rw [failed] at threads
        -- What the first alternative marked stays, although its failure is forgotten.
        exact (secondThreads state marked).after (.refl state) threads.marked
      · rename_i result marked succeeded
        rwa [succeeded] at threads
  | nested parser ih =>
      rw [runOwned]
      split
      · exact threads_none fun _ => rfl
      · have threads := ih { state with depth := state.depth + 1 } mark
        refine ⟨threads.marked, fun value next success => ?_⟩
        obtain ⟨⟨found, last⟩, isFound, pair⟩ := Option.map_eq_some_iff.mp success
        obtain ⟨-, rfl⟩ := Prod.mk.inj pair
        have inside := threads.leads found last isFound
        exact ⟨inside.rest, rfl, inside.text⟩
  | andThen parser callback ih =>
      have threads := ih state mark
      rw [runOwned]
      split
      · rename_i marked failed
        rw [failed] at threads
        exact threads_none threads.marked
      · rename_i value next marked succeeded
        rw [succeeded] at threads
        have edited := State.leads_edit (callback env next.view value).1 next
        have whole := (threads.leads value next rfl).trans edited
        dsimp only
        cases (callback env next.view value).2 with
        | none => exact threads_none threads.marked
        | some changed => exact threads_some whole threads.marked

/-- Running a parser also runs another one inside it, under a number of nestings. Each rule is a
place where a run goes on to a part of its parser. -/
inductive Runs (env : Env) {Inner : Type} (inner : Parser Inner) (inside : Cursor)
    (between : Output) : {Value : Type} → Nat → Parser Value → Cursor → Output → Prop where
  | self : Runs env inner inside between 0 inner inside between
  | map {First Second : Type} {level : Nat} {parser : Parser First} {cursor : Cursor}
      {output : Output} (change : First → Second)
      (runs : Runs env inner inside between level parser cursor output) :
      Runs env inner inside between level (.map change parser) cursor output
  | andFirst {First Second : Type} {level : Nat} {first : Parser First} {cursor : Cursor}
      {output : Output} (second : Parser Second)
      (runs : Runs env inner inside between level first cursor output) :
      Runs env inner inside between level (.and first second) cursor output
  | andSecond {First Second : Type} {level : Nat} {first : Parser First} {second : Parser Second}
      {cursor middle : Cursor} {output written : Output} {left : First}
      (succeeds : first.run env cursor output = some (some (left, middle), written))
      (runs : Runs env inner inside between level second middle written) :
      Runs env inner inside between level (.and first second) cursor output
  | maybe {Value : Type} {level : Nat} {parser : Parser Value} {cursor : Cursor} {output : Output}
      (runs : Runs env inner inside between level parser cursor output) :
      Runs env inner inside between level (.maybe parser) cursor output
  | manyFirst {Value : Type} {level : Nat} {parser : Parser Value} {cursor : Cursor}
      {output : Output} (runs : Runs env inner inside between level parser cursor output) :
      Runs env inner inside between level (.many parser) cursor output
  | manyLater {Value : Type} {level : Nat} {parser : Parser Value} {cursor next : Cursor}
      {output written : Output} {value : Value}
      (succeeds : parser.run env cursor output = some (some (value, next), written))
      (shorter : next.rest.length < cursor.rest.length)
      (runs : Runs env inner inside between level (.many parser) next written) :
      Runs env inner inside between level (.many parser) cursor output
  | eitherFirst {Value : Type} {level : Nat} {first : Parser Value} {cursor : Cursor}
      {output : Output} (second : Parser Value)
      (runs : Runs env inner inside between level first cursor output) :
      Runs env inner inside between level (.either first second) cursor output
  | eitherSecond {Value : Type} {level : Nat} {first second : Parser Value} {cursor : Cursor}
      {output written : Output} (fails : first.run env cursor output = some (none, written))
      (runs : Runs env inner inside between level second cursor written) :
      Runs env inner inside between level (.either first second) cursor output
  | nested {Value : Type} {level : Nat} {parser : Parser Value} {cursor : Cursor} {output : Output}
      (shallow : ¬ Parser.maxDepth ≤ cursor.depth)
      (runs : Runs env inner inside between level parser (cursor.atDepth (cursor.depth + 1))
        output) :
      Runs env inner inside between (level + 1) (.nested parser) cursor output
  | andThen {First Second : Type} {level : Nat} {parser : Parser First} {cursor : Cursor}
      {output : Output} (callback : Callback First Second)
      (runs : Runs env inner inside between level parser cursor output) :
      Runs env inner inside between level (.andThen parser callback) cursor output

/-- A cursor over an output stands for a state if the output starts with the text of the state. -/
structure Stands (state : State) (cursor : Cursor) (output : Output) : Prop where
  same : cursor = state.cursor
  front : state.text <+: output.text

/-- From a cursor that stands for a state, a parser always comes to an end. It keeps the mark, and
either fails where the state still stands or succeeds where a later state stands. -/
theorem Parser.run_cases {Value : Type} (env : Env) (parser : Parser Value) {state : State}
    {cursor : Cursor} {output : Output} (stands : Stands state cursor output) :
    ∃ written, (output.tooDeep = true → written.tooDeep = true) ∧
      ((parser.run env cursor output = some (none, written) ∧ Stands state cursor written) ∨
        ∃ value last next, parser.run env cursor output = some (some (value, last), written) ∧
          Stands next last written ∧ state.Leads next) := by
  obtain ⟨rfl, front⟩ := stands
  have threads := parser.runOwned_threads env state output.tooDeep
  rcases (parser.run_follows env).cases front with
    ⟨written, shared, owned, kept⟩ | ⟨written, value, next, shared, owned, grown, kept⟩
  · rw [owned] at threads
    exact ⟨written, threads.marked, .inl ⟨shared, rfl, kept⟩⟩
  · rw [owned] at threads
    exact ⟨written, threads.marked,
      .inr ⟨value, next.cursor, next, shared, ⟨rfl, kept⟩, threads.leads value next rfl⟩⟩

/-- After a failure the mark is kept, and the state stands where it stood. -/
theorem Parser.stands_of_fails {Value : Type} {env : Env} {parser : Parser Value} {state : State}
    {cursor : Cursor} {output written : Output} (stands : Stands state cursor output)
    (fails : parser.run env cursor output = some (none, written)) :
    (output.tooDeep = true → written.tooDeep = true) ∧ Stands state cursor written := by
  obtain ⟨final, marked, ⟨failed, kept⟩ | ⟨value, last, next, succeeded, -⟩⟩ :=
    parser.run_cases env stands
  · obtain rfl := (Prod.mk.inj (Option.some.inj (failed.symm.trans fails))).2
    exact ⟨marked, kept⟩
  · exact nomatch succeeded.symm.trans fails

/-- After a success the mark is kept, and a later state stands at the new cursor. -/
theorem Parser.stands_of_succeeds {Value : Type} {env : Env} {parser : Parser Value}
    {state : State} {cursor next : Cursor} {output written : Output} {value : Value}
    (stands : Stands state cursor output)
    (succeeds : parser.run env cursor output = some (some (value, next), written)) :
    (output.tooDeep = true → written.tooDeep = true) ∧
      ∃ later, Stands later next written ∧ state.Leads later := by
  obtain ⟨final, marked, ⟨failed, -⟩ | ⟨found, last, later, succeeded, kept, leads⟩⟩ :=
    parser.run_cases env stands
  · exact nomatch failed.symm.trans succeeds
  · obtain ⟨pair, rfl⟩ := Prod.mk.inj (Option.some.inj (succeeded.symm.trans succeeds))
    obtain ⟨-, rfl⟩ := Prod.mk.inj (Option.some.inj pair)
    exact ⟨marked, later, kept, leads⟩

/-- A place inside a run from a state: it is as deep as its nestings say, within the bound if there
is a nesting, and no mark was lost on the way. -/
structure Within (state : State) (output : Output) (level : Nat) (inside : Cursor)
    (between : Output) : Prop where
  depth : inside.depth = state.depth + level
  bounded : 0 < level → inside.depth ≤ Parser.maxDepth
  marked : output.tooDeep = true → between.tooDeep = true

/-- What lies inside the run after a success lies inside the whole run. -/
theorem Within.after {state next : State} {output written between : Output} {level : Nat}
    {inside : Cursor} (within : Within next written level inside between)
    (leads : state.Leads next) (marked : output.tooDeep = true → written.tooDeep = true) :
    Within state output level inside between :=
  ⟨leads.depth ▸ within.depth, within.bounded, fun set => within.marked (marked set)⟩

/-- Every parser inside a run works within the bound. The second part of a sequence starts at the
depth of the whole, because the first part came back to it. -/
theorem Runs.within {env : Env} {Inner Value : Type} {inner : Parser Inner} {inside : Cursor}
    {between output : Output} {level : Nat} {parser : Parser Value} {cursor : Cursor}
    (runs : Runs env inner inside between level parser cursor output) {state : State}
    (stands : Stands state cursor output) : Within state output level inside between := by
  induction runs generalizing state with
  | self => exact ⟨stands.same ▸ rfl, fun below => absurd below (Nat.lt_irrefl 0), id⟩
  | map change runs ih => exact ih stands
  | andFirst second runs ih => exact ih stands
  | andSecond succeeds runs ih =>
      obtain ⟨marked, later, kept, leads⟩ := Parser.stands_of_succeeds stands succeeds
      exact (ih kept).after leads marked
  | maybe runs ih => exact ih stands
  | manyFirst runs ih => exact ih stands
  | manyLater succeeds shorter runs ih =>
      obtain ⟨marked, later, kept, leads⟩ := Parser.stands_of_succeeds stands succeeds
      exact (ih kept).after leads marked
  | eitherFirst second runs ih => exact ih stands
  | eitherSecond fails runs ih =>
      obtain ⟨marked, kept⟩ := Parser.stands_of_fails stands fails
      exact (ih kept).after (.refl state) marked
  | @nested Value level parser cursor output shallow runs ih =>
      obtain ⟨rfl, front⟩ := stands
      have deeper : Stands { state with depth := state.depth + 1 }
          (state.cursor.atDepth (state.cursor.depth + 1)) _ := ⟨rfl, front⟩
      obtain ⟨depth, bounded, marked⟩ := ih deeper
      have start : state.cursor.depth = state.depth := rfl
      rw [start] at shallow
      dsimp only at depth
      refine ⟨by omega, fun _ => ?_, marked⟩
      -- The body itself is one level deeper, and what is nested in it is bounded already.
      rcases Nat.eq_zero_or_pos level with rfl | below
      · omega
      · exact bounded below
  | andThen callback runs ih => exact ih stands

/-- What the body of a nesting would do deeper than the bound makes no difference. -/
theorem Parser.run_nested_congr {Value : Type} {env : Env} {parser other : Parser Value}
    (same : ∀ cursor output, cursor.depth ≤ maxDepth →
      other.run env cursor output = parser.run env cursor output)
    (cursor : Cursor) (output : Output) :
    Parser.run env (.nested other) cursor output =
      Parser.run env (.nested parser) cursor output := by
  rw [run, run]
  split
  · rfl
  · rename_i shallow
    have bounded : (cursor.atDepth (cursor.depth + 1)).depth ≤ maxDepth := Nat.not_le.mp shallow
    rw [same _ output bounded]

/-- A repetition collects the values of steps that each take source, one after the other, and ends
where a step fails or takes nothing. -/
inductive Collects {Value : Type} (step : Step Value) :
    Cursor → Output → List Value → Cursor → Output → Prop where
  | failed {cursor : Cursor} {output written : Output}
      (fails : step cursor output = some (none, written)) :
      Collects step cursor output [] cursor written
  | idle {cursor next : Cursor} {output written : Output} {value : Value}
      (succeeds : step cursor output = some (some (value, next), written))
      (same : Text.bytes next.rest = Text.bytes cursor.rest) :
      Collects step cursor output [] cursor written
  | item {cursor next last : Cursor} {output written final : Output} {value : Value}
      {values : List Value} (succeeds : step cursor output = some (some (value, next), written))
      (shorter : Text.bytes next.rest < Text.bytes cursor.rest)
      (later : Collects step next written values last final) :
      Collects step cursor output (value :: values) last final

/-- A repetition of a parser always comes to an end, and it collects. -/
theorem repeatStep_collects {Value : Type} {env : Env} {parser : Parser Value} {state : State}
    {cursor : Cursor} {output : Output} (stands : Stands state cursor output) :
    ∃ values last written, repeatStep (parser.run env) cursor output =
        some ((values, last), written) ∧
      Collects (parser.run env) cursor output values last written := by
  induction size : cursor.rest.length using Nat.strongRecOn generalizing state cursor output with
  | ind size ih =>
      rw [repeatStep]
      obtain ⟨written, -, ⟨failed, -⟩ | ⟨value, next, later, succeeded, kept, leads⟩⟩ :=
        parser.run_cases env stands
      · rw [failed]
        exact ⟨[], cursor, written, rfl, .failed failed⟩
      · rw [succeeded]
        have suffix : next.rest <:+ cursor.rest := by
          rw [kept.same, stands.same]
          exact leads.rest
        dsimp only
        split
        · rename_i shorter
          obtain ⟨values, last, final, repeated, collects⟩ := ih _ (size ▸ shorter) kept rfl
          rw [repeated]
          exact ⟨value :: values, last, final, rfl,
            .item succeeded (Text.bytes_lt_of_suffix suffix shorter) collects⟩
        · rename_i asLong
          have same := suffix.eq_of_length_le (Nat.not_lt.mp asLong)
          exact ⟨[], cursor, written, rfl, .idle succeeded (congrArg Text.bytes same)⟩

/-- The source between two cursors is what the later one has no more before it. -/
theorem State.Leads.consumedSince {state next : State} (leads : state.Leads next) :
    ∃ taken, state.rest = taken ++ next.rest ∧
      state.cursor.consumedSince next.cursor = some taken := by
  obtain ⟨taken, whole⟩ := leads.rest
  refine ⟨taken, whole.symm, ?_⟩
  have cut := (Text.cutBytes_eq_some state.rest taken next.rest (Text.bytes taken)).mpr
    ⟨whole.symm, rfl⟩
  have size : Text.bytes state.rest - Text.bytes next.rest = Text.bytes taken := by
    rw [← whole, Text.bytes_append, Nat.add_sub_cancel]
  rw [Cursor.consumedSince]
  change (Text.cutBytes state.rest (Text.bytes state.rest - Text.bytes next.rest)).map _ = _
  rw [size, cut]
  rfl

/-- Every parser respects the state it is given. It always comes to an end and never clears the
mark. A success has taken a front of the source, has come back to the depth of the start and has
only added to the text. Whatever runs inside is as deep as its nestings, and under a nesting it is
within the bound, so what a body would do deeper makes no difference. A repetition of the parser
never fails and collects steps that each take bytes. -/
theorem Parser.run_threads {Value : Type} (parser : Parser Value) (env : Env) (state : State)
    (output : Output) (front : state.text <+: output.text) :
    (∃ result written, parser.run env state.cursor output = some (result, written) ∧
      (output.tooDeep = true → written.tooDeep = true) ∧
      ∀ value next, result = some (value, next) →
        (∃ taken, state.rest = taken ++ next.rest ∧
          state.cursor.consumedSince next = some taken) ∧
        next.depth = state.depth ∧
        ∃ added, next.text? written = some (state.text ++ added)) ∧
    (∀ (Inner : Type) (inner : Parser Inner) (inside : Cursor) (between : Output) (level : Nat),
      Runs env inner inside between level parser state.cursor output →
        inside.depth = state.depth + level ∧ (0 < level → inside.depth ≤ maxDepth) ∧
          (output.tooDeep = true → between.tooDeep = true)) ∧
    (∀ other : Parser Value,
      (∀ cursor written, cursor.depth ≤ maxDepth →
        other.run env cursor written = parser.run env cursor written) →
      Parser.run env (.nested other) state.cursor output =
        Parser.run env (.nested parser) state.cursor output) ∧
    ∃ values last written,
      Parser.run env (.many parser) state.cursor output = some (some (values, last), written) ∧
        Collects (parser.run env) state.cursor output values last written := by
  have stands : Stands state state.cursor output := ⟨rfl, front⟩
  refine ⟨?_, fun Inner inner inside between level runs => ?_,
    fun other same => run_nested_congr same state.cursor output, ?_⟩
  · obtain ⟨written, marked, ⟨failed, -⟩ | ⟨value, last, later, succeeded, kept, leads⟩⟩ :=
      parser.run_cases env stands
    · exact ⟨none, written, failed, marked, fun _ _ success => nomatch success⟩
    · refine ⟨some (value, last), written, succeeded, marked, fun other next success => ?_⟩
      obtain ⟨-, rfl⟩ := Prod.mk.inj (Option.some.inj success)
      obtain ⟨rfl, kept⟩ := kept
      obtain ⟨added, whole⟩ := leads.text
      obtain ⟨left, cut⟩ := State.cutBytes_text kept
      refine ⟨leads.consumedSince, leads.depth, added, ?_⟩
      rw [Cursor.text?, cut, Option.map_some, whole]
  · have within := runs.within stands
    exact ⟨within.depth, within.bounded, within.marked⟩
  · obtain ⟨values, last, written, repeated, collects⟩ := repeatStep_collects stands
    refine ⟨values, last, written, ?_, collects⟩
    rw [run, repeated, Option.map_some]

/-- The inner one of two nestings is refused at the bound and sets the mark. The optional part is
dropped with it, and the next nesting runs its body at the bound and comes back. -/
theorem Parser.run_threads_refused :
    Parser.run {} (.and (.maybe (.nested (.nested .space))) (.nested .space))
        (State.cursor ⟨['🎲'], [' ', 'd'], 63⟩) ⟨['🎲', '!'], false⟩ =
      some (some ((none, ()), ⟨4, 2, ['d'], 63⟩), ⟨['🎲', '!'], true⟩) ∧
    Runs {} .space ⟨4, 2, [' ', 'd'], 64⟩ ⟨['🎲', '!'], true⟩ 1
      (.and (.maybe (.nested (.nested .space))) (.nested .space))
      (State.cursor ⟨['🎲'], [' ', 'd'], 63⟩) ⟨['🎲', '!'], false⟩ ∧
    64 ≤ maxDepth := by
  have front : State.text ⟨['🎲'], [' ', 'd'], 63⟩ <+: Output.text ⟨['🎲', '!'], false⟩ := by decide
  have body : Runs {} .space ⟨4, 2, [' ', 'd'], 64⟩ ⟨['🎲', '!'], true⟩ 1
      (.and (.maybe (.nested (.nested .space))) (.nested .space))
      (State.cursor ⟨['🎲'], [' ', 'd'], 63⟩) ⟨['🎲', '!'], false⟩ :=
    .andSecond rfl (.nested (by decide) .self)
  exact ⟨rfl, body, ((run_threads _ {} _ _ front).2.1 _ _ _ _ _ body).2.1 (by decide)⟩

end Scan

end DiceChat
