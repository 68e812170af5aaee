import DiceChat.Proofs.Markup.PlainStep
import DiceChat.Proofs.Message.Leaves
import DiceChat.Scan.Message
import DiceChat.Scan.Owned

/-!
This file relates parsers that only take source to readers of texts. The tokens of the grammar and
of plain text are built as parsers, and each of them recognises what the reader of that token reads.
-/

namespace DiceChat.Scan

open Grammar Markup Text

variable {First Second Value : Type} {env : Env}

/-- A parser recognises what a reader reads: on every state it takes the same source for the same
value, and leaves the text, the depth and the mark alone. -/
def Recognises (env : Env) (parser : Parser Value)
    (reader : List Char → Option (Value × List Char)) : Prop :=
  ∀ state mark, parser.runOwned env state mark =
    ((reader state.rest).map fun (value, rest) => (value, { state with rest }), mark)

/-- Only what the reader reads matters. -/
theorem Recognises.of_eq {parser : Parser Value}
    {reader other : List Char → Option (Value × List Char)}
    (recognises : Recognises env parser reader) (same : ∀ input, reader input = other input) :
    Recognises env parser other := funext same ▸ recognises

/-- A token takes a number of characters. -/
theorem recognises_token (recognise : List Char → Option (Value × Nat)) :
    Recognises env (.token recognise) fun input =>
      (recognise input).map fun (value, count) => (value, input.drop count) := by
  intro state mark
  rw [Parser.runOwned, Option.map_map]
  rfl

theorem recognises_map {parser : Parser First} {reader : List Char → Option (First × List Char)}
    (change : First → Second) (recognises : Recognises env parser reader) :
    Recognises env (parser.map change) fun input =>
      (reader input).map fun (value, rest) => (change value, rest) := by
  intro state mark
  rw [Parser.runOwned, recognises state mark, Option.map_map, Option.map_map]
  rfl

theorem recognises_keepLeft {first : Parser First} {second : Parser Second}
    {early : List Char → Option (First × List Char)}
    {late : List Char → Option (Second × List Char)}
    (left : Recognises env first early) (right : Recognises env second late) :
    Recognises env (first.keepLeft second) fun input =>
      (early input).bind fun (value, middle) =>
        (late middle).map fun (_, rest) => (value, rest) := by
  intro state mark
  simp only [Parser.keepLeft, Parser.runOwned, left state mark]
  rcases early state.rest with _ | ⟨value, middle⟩
  · rfl
  · simp only [Option.map_some, Option.bind_some, right _ mark]
    rcases late middle with _ | ⟨other, rest⟩ <;> rfl

theorem recognises_keepRight {first : Parser First} {second : Parser Second}
    {early : List Char → Option (First × List Char)}
    {late : List Char → Option (Second × List Char)}
    (left : Recognises env first early) (right : Recognises env second late) :
    Recognises env (first.keepRight second) fun input =>
      (early input).bind fun (_, middle) => late middle := by
  intro state mark
  simp only [Parser.keepRight, Parser.runOwned, left state mark]
  rcases early state.rest with _ | ⟨value, middle⟩
  · rfl
  · simp only [Option.map_some, Option.bind_some, right _ mark]
    rcases late middle with _ | ⟨other, rest⟩ <;> rfl

theorem recognises_either {first second : Parser Value}
    {early late : List Char → Option (Value × List Char)}
    (left : Recognises env first early) (right : Recognises env second late) :
    Recognises env (first.either second) fun input => (early input).or (late input) := by
  intro state mark
  simp only [Parser.runOwned, left state mark]
  rcases early state.rest with _ | ⟨value, rest⟩
  · exact right state mark
  · rfl

/-- A callback without edits checks the value and the source after it. -/
theorem recognises_check {parser : Parser First}
    {reader : List Char → Option (First × List Char)}
    (check : Env → List Char → First → Option Second)
    (recognises : Recognises env parser reader) :
    Recognises env (parser.andThen fun env view value => ([], check env view.rest value))
      fun input => (reader input).bind fun (value, rest) =>
        (check env rest value).map fun changed => (changed, rest) := by
  intro state mark
  simp only [Parser.runOwned, recognises state mark]
  rcases reader state.rest with _ | ⟨value, rest⟩
  · rfl
  · simp only [Option.map_some, Option.bind_some, Option.map_map]
    rfl

/-- A reader that leaves a part of its input is recognised. -/
theorem recognises_ofReader {reader : List Char → Option (Value × List Char)}
    (leaves : ∀ input value rest, reader input = some (value, rest) → rest <:+ input) :
    Recognises env (.ofReader reader) reader := by
  refine (recognises_token _).of_eq fun input => ?_
  cases found : reader input with
  | none => rfl
  | some pair =>
      obtain ⟨taken, rfl⟩ := leaves input pair.1 pair.2 found
      simp

/-- Dropping a run leaves what follows it. -/
theorem drop_takeWhile (accepts : Char → Bool) (input : List Char) :
    input.drop (input.takeWhile accepts).length = input.dropWhile accepts := by
  calc input.drop (input.takeWhile accepts).length
    _ = (input.takeWhile accepts ++ input.dropWhile accepts).drop
          (input.takeWhile accepts).length := by rw [List.takeWhile_append_dropWhile]
    _ = input.dropWhile accepts := List.drop_left

theorem recognises_space : Recognises env .space fun input => some ((), skipSpace input) :=
  (recognises_token _).of_eq fun input =>
    congrArg (fun rest => some ((), rest)) (drop_takeWhile isChatSpace input)

/-- A pattern of one run takes the run if it is long enough. -/
theorem recognises_run {run : CharRun} (ungrouped : run.isGroup = false) :
    Recognises env (.pattern ⟨[run], false⟩) fun input =>
      if (run.take input).length < run.least then none
      else some (⟨run.take input, []⟩, input.drop (run.take input).length) := by
  refine (recognises_token _).of_eq fun input => ?_
  simp only [Pattern.find, Pattern.takeRuns, ungrouped]
  split <;> simp

/-- A pattern of one class takes one character of it. -/
theorem recognises_oneOf (characters : List Char) :
    Recognises env (.pattern (.oneOf characters)) fun input =>
      match input with
      | [] => none
      | character :: rest =>
          if character ∈ characters then some (⟨[character], []⟩, rest) else none := by
  refine (recognises_run rfl).of_eq fun input => ?_
  cases input with
  | nil => rfl
  | cons character rest => by_cases member : character ∈ characters <;> simp [CharRun.take, member]

/-- A run of digits with a limit is what a pattern takes of a class of digits. -/
theorem takeDigits_eq (limit : Nat) (input : List Char) :
    takeDigits limit input = ((input.take limit).takeWhile Char.isDigit,
      input.drop ((input.take limit).takeWhile Char.isDigit).length) := by
  induction limit generalizing input with
  | zero => rfl
  | succ limit ih =>
      cases input with
      | nil => rfl
      | cons character rest =>
          rw [takeDigits, List.take_succ_cons, List.takeWhile_cons]
          split
          · rw [ih]
            rfl
          · rfl

/-- The pattern of a roll takes the token of a roll. -/
theorem recognises_rollToken :
    Recognises env (.pattern .roll) fun input =>
      (rollToken input).map fun ((counter, face), rest) =>
        (⟨counter ++ 'd' :: face, [counter, face]⟩, rest) := by
  refine (recognises_token _).of_eq fun input => ?_
  rw [rollToken, takeDigits_eq]
  simp only [Pattern.find, Pattern.takeRuns, Pattern.roll, CharRun.take]
  generalize (input.take 3).takeWhile Char.isDigit = counter
  cases later : input.drop counter.length with
  | nil => simp
  | cons character rest =>
      by_cases letter : character = 'd'
      · subst letter
        have behind (count : Nat) :
            input.drop (counter.length + (1 + count)) = rest.drop count := by
          rw [← List.drop_drop, later, Nat.add_comm, List.drop_succ_cons]
        simp [takeDigits_eq, behind, Nat.add_comm]
      · simp [letter]

/-- A part of a roll that was left out is filled in before or after its conversion. -/
theorem convertOr_getD (default : UInt32) (digits : List Char) :
    (convertOr none (fun digits => (convertUInt32 digits).map some) digits).map
        (fun found => found.getD default) = convertOr default convertUInt32 digits := by
  unfold convertOr
  split
  · rfl
  · rw [Option.map_map]
    exact Option.map_id'

/-- A match of the token of a roll has its digits as groups. -/
theorem rollOf?_token (whole counter face rest : List Char) :
    rollOf? env rest ⟨whole, [counter, face]⟩ =
      if startsWord face rest then none
      else
        (convertOr 1 convertUInt32 counter).bind fun count =>
          (convertOr env.defaultFace convertUInt32 face).map fun sides => .roll count sides := rfl

/-- Rolls get the face of the settings where they have none. -/
theorem recognises_roll :
    Recognises env .roll fun input =>
      (Grammar.roll input).map fun (written, rest) => (written.fill env.defaultFace, rest) := by
  refine (recognises_check rollOf? recognises_rollToken).of_eq fun input => ?_
  rw [← convertedRoll_eq_roll, convertedRoll]
  rcases rollToken input with _ | ⟨⟨counter, face⟩, rest⟩
  · rfl
  · dsimp only [Option.map_some, Option.bind_some]
    rw [rollOf?_token]
    by_cases word : startsWord face rest = true
    · rw [if_pos word, if_pos word]
      rfl
    · rw [if_neg word, if_neg word, ← convertOr_getD env.defaultFace face]
      cases convertOr 1 convertUInt32 counter with
      | none => rfl
      | some count =>
          cases convertOr none (fun digits => (convertUInt32 digits).map some) face <;> rfl

/-- The pattern of a number takes its digits. -/
theorem recognises_numToken :
    Recognises env (.pattern .num) fun input =>
      if (takeDigits 5 input).1.isEmpty then none
      else some (⟨(takeDigits 5 input).1, []⟩, (takeDigits 5 input).2) := by
  refine (recognises_run rfl).of_eq fun input => ?_
  rw [takeDigits_eq, show CharRun.take ⟨Char.isDigit, 1, some 5, false⟩ input =
    (input.take 5).takeWhile Char.isDigit from rfl]
  cases (input.take 5).takeWhile Char.isDigit <;> simp

theorem recognises_num :
    Recognises env .num fun input =>
      (Grammar.num input).map fun (written, rest) => (written.fill env.defaultFace, rest) := by
  refine (recognises_check (fun _ _ found => (convertInt64 found.whole).map Formula.num)
    recognises_numToken).of_eq fun input => ?_
  rw [← convertedNum_eq_num, convertedNum]
  dsimp only
  split
  · rfl
  · dsimp only [Option.bind_some]
    cases convertInt64 (takeDigits 5 input).1 <;> rfl

/-- The symbols of a level are read as its operators. -/
theorem recognises_operator (level : Level) {symbols : List Char}
    (known : ∀ symbol ∈ symbols, Operator.ofText? [symbol] = level.operator? symbol)
    (only : ∀ symbol operator, level.operator? symbol = some operator → symbol ∈ symbols) :
    Recognises env (.operator symbols) (infixed level.operator?) := by
  have symbol : Recognises env (.symbol symbols) _ :=
    recognises_check (fun _ _ found => Operator.ofText? found.whole) (recognises_oneOf symbols)
  refine (recognises_keepRight recognises_space
    (recognises_keepLeft symbol recognises_space)).of_eq fun input => ?_
  rw [infixed, Option.bind_some]
  cases skipSpace input with
  | nil => rfl
  | cons symbol rest =>
      dsimp only
      split
      · rename_i member
        rw [← known symbol member]
        dsimp only [Option.bind_some]
        cases Operator.ofText? [symbol] <;> rfl
      · rename_i other
        have unknown : level.operator? symbol = none :=
          Option.eq_none_iff_forall_ne_some.mpr fun operator reads => other (only _ operator reads)
        rw [unknown]
        rfl

theorem recognises_additive :
    Recognises env (.operator ['-', '+']) (infixed Operator.additive?) := by
  have known : ∀ symbol ∈ ['-', '+'],
      Operator.ofText? [symbol] = Level.sum.operator? symbol := by
    simp only [List.forall_mem_cons]
    exact ⟨rfl, rfl, List.forall_mem_nil _⟩
  refine recognises_operator .sum known fun symbol operator reads => ?_
  rcases Level.operator?_eq_some_iff.mp reads with
    ⟨-, rfl, -⟩ | ⟨-, rfl, -⟩ | ⟨product, -⟩ | ⟨product, -⟩
  · decide
  · decide
  · exact nomatch product
  · exact nomatch product

theorem recognises_multiplicative :
    Recognises env (.operator ['*', '/', '×', '÷']) (infixed Operator.multiplicative?) := by
  have known : ∀ symbol ∈ ['*', '/', '×', '÷'],
      Operator.ofText? [symbol] = Level.product.operator? symbol := by
    simp only [List.forall_mem_cons]
    exact ⟨rfl, rfl, rfl, rfl, List.forall_mem_nil _⟩
  refine recognises_operator .product known fun symbol operator reads => ?_
  rcases Level.operator?_eq_some_iff.mp reads with
    ⟨sum, -⟩ | ⟨sum, -⟩ | ⟨-, rfl | rfl, -⟩ | ⟨-, rfl | rfl, -⟩
  · exact nomatch sum
  · exact nomatch sum
  · decide
  · decide
  · decide
  · decide

/-- This opens a bracket, with space behind it. -/
def openBracket (bracket : Char) : List Char → Option (Unit × List Char)
  | [] => none
  | character :: rest => if character = bracket then some ((), skipSpace rest) else none

theorem recognises_opening (bracket : Char) :
    Recognises env (.opening bracket) (openBracket bracket) := by
  refine (recognises_keepRight (recognises_oneOf [bracket]) recognises_space).of_eq fun input => ?_
  cases input with
  | nil => rfl
  | cons character rest =>
      simp only [openBracket, List.mem_singleton]
      split <;> rfl

/-- This closes a bracket, with space before it. -/
def closeBracket (bracket : Char) (input : List Char) : Option (Match × List Char) :=
  match skipSpace input with
  | [] => none
  | character :: rest => if character = bracket then some (⟨[character], []⟩, rest) else none

theorem recognises_closing (bracket : Char) :
    Recognises env (.closing bracket) (closeBracket bracket) := by
  refine (recognises_keepRight recognises_space (recognises_oneOf [bracket])).of_eq fun input => ?_
  simp only [Option.bind_some, List.mem_singleton, closeBracket]

theorem recognises_digits :
    Recognises env .digits fun input =>
      if (input.takeWhile Char.isDigit).isEmpty then none
      else some (input.takeWhile Char.isDigit, input.dropWhile Char.isDigit) := by
  refine (recognises_map _ (recognises_run rfl)).of_eq fun input => ?_
  rw [← drop_takeWhile, show CharRun.take ⟨Char.isDigit, 1, none, false⟩ input =
    input.takeWhile Char.isDigit from rfl]
  cases input.takeWhile Char.isDigit <;> simp

theorem recognises_loneSpace :
    Recognises env .loneSpace fun input =>
      match input with
      | [] => none
      | character :: rest =>
          if isLoneSpace character rest then some ([character], rest) else none := by
  refine (recognises_token _).of_eq fun input => ?_
  cases input with
  | nil => rfl
  | cons character rest =>
      dsimp only
      split <;> rfl

theorem recognises_wordRun :
    Recognises env .wordRun fun input =>
      match input with
      | [] => none
      | character :: rest => some (wordStep character rest) := by
  refine (recognises_map _ (recognises_token _)).of_eq fun input => ?_
  cases input with
  | nil => rfl
  | cons character rest =>
      simp [Pattern.find, Pattern.takeRuns, CharRun.take, wordStep, drop_takeWhile,
        ← List.drop_drop]

/-- The three alternatives of plain text take a step of it. -/
theorem recognises_plain :
    Recognises env (.choice [.digits, .loneSpace, .wordRun]) plain := by
  have never : Recognises env (.never : Parser (List Char)) fun _ => none := fun _ _ => rfl
  refine (recognises_either recognises_digits (recognises_either recognises_loneSpace
    (recognises_either recognises_wordRun never))).of_eq fun input => ?_
  cases input with
  | nil => rfl
  | cons character rest =>
      rw [plain]
      by_cases digit : character.isDigit = true
      · simp [digit]
      · by_cases lone : isLoneSpace character rest = true
        · simp [digit, lone]
        · simp [digit, lone]

end DiceChat.Scan
