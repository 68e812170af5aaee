import DiceChat.Proofs.Scan.Recognising
import DiceChat.Proofs.Scan.Sharing

/-!
This file follows the reading of an expression on cursors and compares it with the reader of texts.
The reader stops as soon as its levels run out. The steps go on, but the mark that they leave is
never cleared before the end, so a mark tells that the reader stopped. Without a mark both find the
same expression or none.
-/

namespace DiceChat

/-- Reading goes on behind what was read. -/
def Reading.bind {First Second : Type} (reading : Reading First)
    (next : First → List Char → Reading Second) : Reading Second :=
  match reading with
  | .tooDeep => .tooDeep
  | .failed => .failed
  | .read value rest => next value rest

/-- Another reading counts if nothing was found. -/
def Reading.orElse {Value : Type} (first second : Reading Value) : Reading Value :=
  match first with
  | .tooDeep => .tooDeep
  | .failed => second
  | .read value rest => .read value rest

/-- A reader that needs no levels finds a value or none. -/
def Reading.ofOption {Value : Type} : Option (Value × List Char) → Reading Value
  | none => .failed
  | some (value, rest) => .read value rest

namespace Scan

open Grammar

variable {First Second Third Value : Type} {env : Env} {state : State}

/-- A mark tells that the levels ran out, whatever was found. -/
def told (result : Option (Value × List Char)) (marked : Bool) : Reading Value :=
  if marked then .tooDeep else .ofOption result

/-- An answer tells a reading. It keeps the text, changes the value that was read, and comes back to
the depth of the state. -/
def Tells (change : First → Value) (state : State) (mark : Bool) (reading : Reading First)
    (answer : Option (Option (Value × Cursor) × Output)) : Prop :=
  ∃ result marked written,
    answer = some (result.map fun (value, rest) => (change value, State.cursor { state with rest }),
      written) ∧
    state.text <+: written.text ∧ written.tooDeep = (mark || marked) ∧
    reading = told result marked

/-- On cursors too, a parser takes what it recognises and nothing else changes. -/
theorem Recognises.run {parser : Parser Value} {reader : List Char → Option (Value × List Char)}
    (recognises : Recognises env parser reader) {output : Output}
    (front : state.text <+: output.text) :
    ∃ written, parser.run env state.cursor output =
        some ((reader state.rest).map fun (value, rest) =>
          (value, State.cursor { state with rest }), written) ∧
      state.text <+: written.text ∧ written.tooDeep = output.tooDeep := by
  have owned := recognises state output.tooDeep
  rcases (Parser.run_follows env parser).cases front with
    ⟨written, shared, isOwned, kept⟩ | ⟨written, value, next, shared, isOwned, -, kept⟩
  · obtain ⟨missing, isMark⟩ := Prod.mk.inj (owned.symm.trans isOwned)
    rw [Option.map_eq_none_iff.mp missing, shared]
    exact ⟨written, rfl, kept, isMark.symm⟩
  · obtain ⟨success, isMark⟩ := Prod.mk.inj (owned.symm.trans isOwned)
    obtain ⟨⟨value, rest⟩, isRead, pair⟩ := Option.map_eq_some_iff.mp success
    obtain ⟨rfl, rfl⟩ := Prod.mk.inj pair
    rw [isRead, shared]
    exact ⟨written, rfl, kept, isMark.symm⟩

/-- A parser tells what it recognises. -/
theorem Recognises.tells {parser : Parser Value} {found : List Char → Option (First × List Char)}
    {change : First → Value}
    (recognises : Recognises env parser fun input =>
      (found input).map fun (value, rest) => (change value, rest))
    {output : Output} (front : state.text <+: output.text) :
    Tells change state output.tooDeep (.ofOption (found state.rest))
      (parser.run env state.cursor output) := by
  obtain ⟨written, answer, kept, isMark⟩ := recognises.run front
  refine ⟨found state.rest, false, written, ?_, kept, by rw [isMark, Bool.or_false], rfl⟩
  rw [answer, Option.map_map]
  rfl

theorem Tells.bind {early : First → Second} {late : Third → Value} {mark : Bool}
    {reading : Reading First} {next : First → List Char → Reading Third} {output : Output}
    {first : Step Second} {second : Second → Step Value}
    (tells : Tells early state mark reading (first state.cursor output))
    (onward : ∀ value rest written, state.text <+: written.text →
      Tells late { state with rest } written.tooDeep (next value rest)
        (second (early value) (State.cursor { state with rest }) written)) :
    Tells late state mark (reading.bind next) (first.bind second state.cursor output) := by
  obtain ⟨result, marked, written, answer, kept, isMark, rfl⟩ := tells
  unfold Step.bind
  rw [answer]
  cases result with
  | none =>
      refine ⟨none, marked, written, rfl, kept, isMark, ?_⟩
      cases marked <;> rfl
  | some found =>
      obtain ⟨result, later, final, answer, grown, isLater, told⟩ :=
        onward found.1 found.2 written kept
      refine ⟨result, marked || later, final, answer, grown, ?_, ?_⟩
      · rw [isLater, isMark, Bool.or_assoc]
      · cases marked
        · exact told
        · rfl

theorem tells_succeed {change : First → Value} (value : First) {output : Output}
    (front : state.text <+: output.text) :
    Tells change state output.tooDeep (.read value state.rest)
      (Step.succeed (change value) state.cursor output) :=
  ⟨some (value, state.rest), false, output, rfl, front, (Bool.or_false _).symm, rfl⟩

theorem tells_fail {change : First → Value} {output : Output}
    (front : state.text <+: output.text) :
    Tells change state output.tooDeep .failed (Step.fail state.cursor output) :=
  ⟨none, false, output, rfl, front, (Bool.or_false _).symm, rfl⟩

theorem Tells.orElse {change : First → Value} {mark : Bool} {early late : Reading First}
    {output : Output} {first second : Step Value}
    (tells : Tells change state mark early (first state.cursor output))
    (onward : ∀ written, state.text <+: written.text →
      Tells change state written.tooDeep late (second state.cursor written)) :
    Tells change state mark (early.orElse late) (first.orElse second state.cursor output) := by
  obtain ⟨result, marked, written, answer, kept, isMark, rfl⟩ := tells
  unfold Step.orElse
  rw [answer]
  cases result with
  | none =>
      obtain ⟨result, later, final, answer, grown, isLater, told⟩ := onward written kept
      refine ⟨result, marked || later, final, answer, grown, ?_, ?_⟩
      · rw [isLater, isMark, Bool.or_assoc]
      · cases marked
        · exact told
        · rfl
  | some found =>
      refine ⟨some found, marked, written, rfl, kept, isMark, ?_⟩
      cases marked <;> rfl

/-- A step mirrors a reader with a budget, at all depths with fewer levels left than the limit. -/
def Mirrors (change : First → Value) (step : Step Value)
    (reader : Nat → List Char → Reading First) (limit : Nat) : Prop :=
  ∀ (state : State) (output : Output), state.text <+: output.text →
    maxExprDepth - state.depth < limit →
    Tells change state output.tooDeep (reader (maxExprDepth - state.depth) state.rest)
      (step state.cursor output)

/-- A reader one level deeper needs a level. -/
def deeper (reader : Nat → List Char → Reading First) : Nat → List Char → Reading First
  | 0, _ => .tooDeep
  | budget + 1, input => reader budget input

/-- Whoever refuses to go deeper marks the output. -/
theorem tells_refused {change : First → Value} {mark : Bool} {written : Output}
    (kept : state.text <+: written.text) :
    Tells change state mark .tooDeep (some (none, written.markTooDeep)) :=
  ⟨none, true, written.markTooDeep, rfl, kept, (Bool.or_true _).symm, rfl⟩

theorem Mirrors.nested {change : First → Value} {step : Step Value}
    {reader : Nat → List Char → Reading First} {limit : Nat}
    (mirrors : Mirrors change step reader limit) :
    Mirrors change step.nested (deeper reader) (limit + 1) := by
  intro state output front within
  unfold Step.nested
  rw [show state.cursor.depth = state.depth from rfl]
  split
  · rename_i refused
    rw [show maxExprDepth - state.depth = 0 from Nat.sub_eq_zero_of_le refused]
    exact tells_refused front
  · rename_i room
    have budget : maxExprDepth - state.depth = maxExprDepth - (state.depth + 1) + 1 := by
      have := Nat.lt_of_not_le room
      change state.depth < maxExprDepth at this
      omega
    obtain ⟨result, marked, written, answer, kept, isMark, told⟩ :=
      mirrors { state with depth := state.depth + 1 } output front (by dsimp only; omega)
    rw [budget, show state.cursor.atDepth (state.depth + 1) =
      State.cursor { state with depth := state.depth + 1 } from rfl, answer]
    refine ⟨result, marked, written, ?_, kept, isMark, told⟩
    cases result <;> rfl

theorem map_told (change : First → Second) (result : Option (First × List Char)) (marked : Bool) :
    (told result marked).map change =
      told (result.map fun (value, rest) => (change value, rest)) marked := by
  cases marked
  · cases result <;> rfl
  · rfl

/-- Without enough levels for an operand the links are refused. -/
theorem linkSteps_of_refused {operator : Step Operator} {operand : Step Expr} {home depth : Nat}
    {cursor after : Cursor} {output written : Output} {symbol : Operator}
    (answer : operator cursor output = some (some (symbol, after), written))
    (refused : maxExprDepth ≤ depth + 1) :
    linkSteps operator operand home depth cursor output = some (none, written.markTooDeep) := by
  rw [linkSteps, answer]
  exact if_pos refused

/-- With enough levels the operand is read, and after it the other links. -/
theorem linkSteps_of_room {operator : Step Operator} {operand : Step Expr} {home depth : Nat}
    {cursor after : Cursor} {output written : Output} {symbol : Operator}
    (answer : operator cursor output = some (some (symbol, after), written))
    (room : depth + 1 < maxExprDepth) :
    linkSteps operator operand home depth cursor output =
      match operand (after.atDepth (depth + 1)) written with
      | none => none
      | some (none, final) => some (some ([], cursor), final)
      | some (some (value, next), middle) =>
          (linkSteps operator operand home (depth + 1) (next.atDepth home) middle).map
            fun (result, final) =>
              (result.map fun (others, last) => ((symbol, value) :: others, last), final) := by
  rw [linkSteps, answer]
  exact if_neg (Nat.not_le_of_lt room)

section

variable {operator : Parser Operator} {operator? : Char → Option Operator} {operand : Step Expr}
  {face : UInt32} {reader : Nat → List Char → Reading WrittenExpr} {limit : Nat}

/-- The links of a chain mirror their reader. The depth is the one of the last operand, and the
next operand has one level less. -/
theorem tells_linkSteps (recognises : Recognises env operator (infixed operator?))
    (mirrors : Mirrors (WrittenExpr.fill face) operand reader limit) {depth budget : Nat}
    (left : maxExprDepth - depth = budget) (behind : budget < limit) {output : Output}
    (front : state.text <+: output.text) :
    Tells (List.map fun link : Operator × WrittenExpr => (link.1, link.2.fill face)) state
      output.tooDeep (links operator? reader budget state.rest)
      (linkSteps (operator.run env) operand state.depth depth state.cursor output) := by
  induction budget using Nat.strongRecOn generalizing depth state output with
  | ind budget ih =>
      obtain ⟨written, answer, kept, isMark⟩ := recognises.run front
      unfold links
      rcases isInfixed : infixed operator? state.rest with _ | ⟨symbol, after⟩
      · rw [isInfixed] at answer
        rw [linkSteps, answer]
        exact ⟨some ([], state.rest), false, written, rfl, kept, by rw [isMark, Bool.or_false], rfl⟩
      · rw [isInfixed] at answer
        by_cases refused : maxExprDepth ≤ depth + 1
        · rw [linkSteps_of_refused answer refused]
          have deep : budget = 0 ∨ budget = 1 := by omega
          rcases deep with rfl | rfl <;> exact tells_refused kept
        · obtain ⟨budget, rfl⟩ : ∃ lower, budget = lower + 2 := ⟨budget - 2, by omega⟩
          have lower : maxExprDepth - (depth + 1) = budget + 1 := by omega
          obtain ⟨result, marked, middle, read, middleKept, isMiddle, told⟩ :=
            mirrors ⟨state.text, after, depth + 1⟩ written kept (by dsimp only; omega)
          dsimp only at told
          rw [lower] at told
          rw [linkSteps_of_room answer (Nat.lt_of_not_le refused),
            show Cursor.atDepth (depth + 1) (State.cursor { state with rest := after }) =
              State.cursor ⟨state.text, after, depth + 1⟩ from rfl, read]
          dsimp only
          rw [told]
          rcases result with _ | ⟨value, rest⟩
          · refine ⟨some ([], state.rest), marked, middle, rfl, middleKept,
              by rw [isMiddle, isMark], ?_⟩
            cases marked <;> rfl
          · have restKept : State.text { state with rest } <+: middle.text := middleKept
            obtain ⟨others, later, final, linked, finalKept, isFinal, toldOthers⟩ :=
              ih (budget + 1) (by omega) lower (by omega) restKept
            dsimp only [Option.map_some]
            rw [show Cursor.atDepth state.depth (State.cursor ⟨state.text, rest, depth + 1⟩) =
              State.cursor { state with rest } from rfl, linked]
            refine ⟨others.map fun linked => ((symbol, value) :: linked.1, linked.2),
              marked || later, final, ?_, finalKept, ?_, ?_⟩
            · cases others <;> rfl
            · rw [isFinal, isMiddle, isMark, Bool.or_assoc]
            · cases marked
              · exact (congrArg (Reading.map _) toldOthers).trans (map_told _ _ _)
              · rfl

/-- The last two operands are joined first on both sides. -/
theorem foldRight_cons (first next : Expr) (symbol : Operator) (others : List (Operator × Expr)) :
    foldRight first ((symbol, next) :: others) = .binary symbol first (foldRight next others) := by
  unfold foldRight
  rw [List.reverse_cons]
  rcases others.reverse with _ | ⟨last, earlier⟩
  · rfl
  · rw [List.cons_append]
    dsimp only
    rw [List.foldl_append]
    rfl

theorem fill_foldChain (face : UInt32) (first : WrittenExpr)
    (others : List (Operator × WrittenExpr)) :
    (foldChain first others).fill face =
      foldRight (first.fill face) (others.map fun link => (link.1, link.2.fill face)) := by
  induction others generalizing first with
  | nil => rfl
  | cons link others ih =>
      rw [foldChain, List.map_cons, foldRight_cons, ← ih]
      rfl

/-- A chain of mirrored operands mirrors the reader of chains. -/
theorem Mirrors.chain (mirrors : Mirrors (WrittenExpr.fill face) operand reader limit)
    (recognises : Recognises env operator (infixed operator?)) :
    Mirrors (WrittenExpr.fill face) (chainStep (operator.run env) operand)
      (Grammar.chain operator? reader) limit := by
  intro state output front within
  have bound : Grammar.chain operator? reader (maxExprDepth - state.depth) state.rest =
      (reader (maxExprDepth - state.depth) state.rest).bind fun first rest =>
        (links operator? reader (maxExprDepth - state.depth) rest).bind fun others last =>
          .read (foldChain first others) last := by
    unfold Grammar.chain
    cases reader (maxExprDepth - state.depth) state.rest with
    | tooDeep => rfl
    | failed => rfl
    | read first rest => cases links operator? reader (maxExprDepth - state.depth) rest <;> rfl
  rw [bound]
  refine (mirrors state output front within).bind fun first rest written kept => ?_
  have restKept : State.text { state with rest } <+: written.text := kept
  refine (tells_linkSteps recognises mirrors rfl within restKept).bind
    fun others last final finalKept => ?_
  rw [← fill_foldChain]
  exact tells_succeed _ finalKept

end

/-- One kind of bracket is read like this, with a reader for its content. -/
def groupOf (bracket : Char × Char) (reader : Nat → List Char → Reading WrittenExpr) :
    Nat → List Char → Reading WrittenExpr :=
  deeper fun budget input =>
    (Reading.ofOption (openBracket bracket.1 input)).bind fun _ rest =>
      (reader budget rest).bind fun value rest =>
        (Reading.ofOption (closeBracket bracket.2 rest)).bind fun _ rest => .read value rest

theorem orElse_failed (reading : Reading Value) : reading.orElse .failed = reading := by
  cases reading <;> rfl

/-- A bracket of another kind is not opened. -/
theorem groupOf_of_ne {character : Char} (bracket : Char × Char) (other : character ≠ bracket.1)
    {reader : Nat → List Char → Reading WrittenExpr} {budget : Nat} {rest : List Char} :
    groupOf bracket reader (budget + 1) (character :: rest) = .failed := by
  simp [groupOf, deeper, openBracket, other, Reading.ofOption, Reading.bind]

/-- The content of an opened bracket is read up to its closing character. -/
theorem groupOf_opening (bracket : Char × Char) (reader : Nat → List Char → Reading WrittenExpr)
    (budget : Nat) (rest : List Char) :
    groupOf bracket reader (budget + 1) (bracket.1 :: rest) =
      closeGroup bracket.2 (reader budget (skipSpace rest)) := by
  simp only [groupOf, deeper, openBracket, if_true, Reading.ofOption, Reading.bind]
  cases reader budget (skipSpace rest) with
  | tooDeep => rfl
  | failed => rfl
  | read value after =>
      cases skipped : skipSpace after with
      | nil => simp [closeGroup, closeBracket, skipped]
      | cons character later =>
          by_cases closes : character = bracket.2 <;>
            simp [closeGroup, closeBracket, skipped, closes]

/-- The three kinds of brackets are tried one after the other. -/
theorem group_eq_orElse (reader : Nat → List Char → Reading WrittenExpr) (budget : Nat)
    (input : List Char) :
    group reader budget input = (groupOf ('(', ')') reader budget input).orElse
      ((groupOf ('（', '）') reader budget input).orElse
        ((groupOf ('[', ']') reader budget input).orElse .failed)) := by
  rcases budget with _ | budget
  · rfl
  rcases input with _ | ⟨character, rest⟩
  · rfl
  rw [group, orElse_failed]
  cases closes : closerOf character with
  | none =>
      have other {opening closing : Char} (pair : closerOf opening = some closing) :
          character ≠ opening := by
        rintro rfl
        exact absurd (pair.symm.trans closes) (by simp)
      rw [groupOf_of_ne _ (other rfl), groupOf_of_ne _ (other rfl), groupOf_of_ne _ (other rfl)]
      rfl
  | some closing =>
      rcases closerOf_eq_some_iff.mp closes with ⟨rfl, rfl⟩ | ⟨rfl, rfl⟩ | ⟨rfl, rfl⟩
      · rw [groupOf_of_ne ('（', '）') (by decide), groupOf_of_ne ('[', ']') (by decide)]
        exact ((orElse_failed _).trans (groupOf_opening ('(', ')') reader budget rest)).symm
      · rw [groupOf_of_ne ('(', ')') (by decide), groupOf_of_ne ('[', ']') (by decide)]
        exact ((orElse_failed _).trans (groupOf_opening ('（', '）') reader budget rest)).symm
      · rw [groupOf_of_ne ('(', ')') (by decide), groupOf_of_ne ('（', '）') (by decide)]
        exact (groupOf_opening ('[', ']') reader budget rest).symm

theorem Mirrors.orElse {change : First → Value} {first second : Step Value}
    {early late : Nat → List Char → Reading First} {limit : Nat}
    (mirrors : Mirrors change first early limit) (others : Mirrors change second late limit) :
    Mirrors change (first.orElse second)
      (fun budget input => (early budget input).orElse (late budget input)) limit :=
  fun state output front within =>
    (mirrors state output front within).orElse fun written kept => others state written kept within

theorem mirrors_fail {change : First → Value} {limit : Nat} :
    Mirrors change Step.fail (fun _ _ => .failed) limit :=
  fun _ _ front _ => tells_fail front

/-- A parser needs no levels. -/
theorem Recognises.mirrors {parser : Parser Value} {found : List Char → Option (First × List Char)}
    {change : First → Value}
    (recognises : Recognises env parser fun input =>
      (found input).map fun (value, rest) => (change value, rest)) {limit : Nat} :
    Mirrors change (parser.run env) (fun _ input => .ofOption (found input)) limit :=
  fun _ _ front _ => recognises.tells front

section

variable {content : Step Expr} {reader : Nat → List Char → Reading WrittenExpr} {limit : Nat}
  (mirrors : Mirrors (WrittenExpr.fill env.defaultFace) content reader limit)

include mirrors

theorem Mirrors.group (bracket : Char × Char) :
    Mirrors (WrittenExpr.fill env.defaultFace) (groupStep env bracket content)
      (groupOf bracket reader) (limit + 1) := by
  refine Mirrors.nested fun state output front within => ?_
  have opens : Recognises env (.opening bracket.1) fun input =>
      (openBracket bracket.1 input).map fun (value, rest) => (id value, rest) :=
    (recognises_opening bracket.1).of_eq fun _ => Option.map_id'.symm
  have closes : Recognises env (.closing bracket.2) fun input =>
      (closeBracket bracket.2 input).map fun (value, rest) => (id value, rest) :=
    (recognises_closing bracket.2).of_eq fun _ => Option.map_id'.symm
  refine (opens.tells front).bind fun _ inside opened kept => ?_
  refine (mirrors { state with rest := inside } opened kept within).bind
    fun value rest read kept => ?_
  have restKept : State.text { state with rest } <+: read.text := kept
  refine (closes.tells restKept).bind fun _ after closed kept => ?_
  exact tells_succeed value kept

theorem Mirrors.atom :
    Mirrors (WrittenExpr.fill env.defaultFace) (atomStep env content) (Grammar.atom reader)
      (limit + 1) := by
  have same : Grammar.atom reader = fun budget input =>
      (Reading.ofOption (Grammar.roll input)).orElse ((Reading.ofOption (Grammar.num input)).orElse
        ((groupOf ('(', ')') reader budget input).orElse
          ((groupOf ('（', '）') reader budget input).orElse
            ((groupOf ('[', ']') reader budget input).orElse .failed)))) := by
    funext budget input
    rw [Grammar.atom, group_eq_orElse]
    cases Grammar.roll input with
    | some found => rfl
    | none => cases Grammar.num input <;> rfl
  rw [same]
  exact recognises_roll.mirrors.orElse (recognises_num.mirrors.orElse
    ((mirrors.group _).orElse ((mirrors.group _).orElse ((mirrors.group _).orElse mirrors_fail))))

/-- Sums mirror their reader. -/
theorem Mirrors.sum :
    Mirrors (WrittenExpr.fill env.defaultFace) (sumStep env content) (Grammar.sum reader)
      (limit + 1) :=
  (mirrors.atom.chain recognises_multiplicative).chain recognises_additive

end

/-- Expressions mirror their reader. -/
theorem mirrors_exprSteps (brackets : Nat) :
    Mirrors (WrittenExpr.fill env.defaultFace) (exprSteps env (brackets + 1))
      (exprWithin brackets) (brackets + 1) := by
  induction brackets with
  | zero => exact Mirrors.sum fun _ _ _ within => absurd within (Nat.not_lt_zero _)
  | succ brackets ih => exact ih.sum

/-- An expression at the start of a run tells what the reader with the whole budget finds. -/
theorem tells_exprStep {output : Output} (front : state.text <+: output.text)
    (start : state.depth = 0) :
    Tells (WrittenExpr.fill env.defaultFace) state output.tooDeep (expr maxExprDepth state.rest)
      (exprStep env state.cursor output) := by
  have mirrored : Tells (WrittenExpr.fill env.defaultFace) state output.tooDeep _
      (exprStep env state.cursor output) :=
    mirrors_exprSteps maxExprDepth state output front (by omega)
  rwa [start] at mirrored

end Scan

end DiceChat
