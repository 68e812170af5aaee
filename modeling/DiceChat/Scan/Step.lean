import DiceChat.Scan.Run

/-!
This file joins steps in the ways that parsers are joined. A step that is written by hand, because
it reads or clears the mark or charges depth on its own, stands this way beside the steps of
parsers.
-/

namespace DiceChat.Scan

namespace Step

variable {First Second Value : Type}

def fail : Step Value := fun _ output => some (none, output)

def succeed (value : Value) : Step Value := fun cursor output =>
  some (some (value, cursor), output)

/-- The second step starts where the first one ends and sees its value. -/
def bind (first : Step First) (second : First → Step Second) : Step Second := fun cursor output =>
  match first cursor output with
  | none => none
  | some (none, written) => some (none, written)
  | some (some (value, next), written) => second value next written

/-- The second step is tried from the same cursor if the first one fails. -/
def orElse (first second : Step Value) : Step Value := fun cursor output =>
  match first cursor output with
  | none => none
  | some (none, written) => second cursor written
  | some (some result, written) => some (some result, written)

/-- The first alternative that succeeds wins. -/
def choice (steps : List (Step Value)) : Step Value := steps.foldr orElse fail

/-- The step runs one level deeper, unless that is too deep. -/
def nested (step : Step Value) : Step Value := fun cursor output =>
  if Parser.maxDepth ≤ cursor.depth then some (none, output.markTooDeep)
  else
    (step (cursor.atDepth (cursor.depth + 1)) output).map fun (result, written) =>
      (result.map fun (value, next) => (value, next.atDepth cursor.depth), written)

theorem bind_assoc {Third : Type} (first : Step First) (second : First → Step Second)
    (third : Second → Step Third) :
    (first.bind second).bind third = first.bind fun value => (second value).bind third := by
  funext cursor output
  simp only [bind]
  rcases first cursor output with _ | ⟨_ | ⟨value, next⟩, written⟩ <;> rfl

theorem succeed_bind (value : First) (second : First → Step Second) :
    (succeed value).bind second = second value := rfl

end Step

namespace Parser

variable {First Second Value : Type} (env : Env)

/-- Two parsers run as their steps, one after the other. -/
theorem run_keepLeft (first : Parser First) (second : Parser Second) :
    (first.keepLeft second).run env = (first.run env).bind fun value =>
      (second.run env).bind fun _ => .succeed value := by
  funext cursor output
  simp only [keepLeft, run, Step.bind]
  rcases first.run env cursor output with _ | ⟨_ | ⟨value, middle⟩, written⟩
  · rfl
  · rfl
  · dsimp only
    rcases second.run env middle written with _ | ⟨_ | ⟨other, next⟩, final⟩ <;> rfl

theorem run_keepRight (first : Parser First) (second : Parser Second) :
    (first.keepRight second).run env = (first.run env).bind fun _ => second.run env := by
  funext cursor output
  simp only [keepRight, run, Step.bind]
  rcases first.run env cursor output with _ | ⟨_ | ⟨value, middle⟩, written⟩
  · rfl
  · rfl
  · dsimp only
    rcases second.run env middle written with _ | ⟨_ | ⟨other, next⟩, final⟩ <;> rfl

/-- A choice of parsers runs as the choice of their steps. -/
theorem run_choice (parsers : List (Parser Value)) :
    (choice parsers).run env = .choice (parsers.map (Parser.run env)) := by
  induction parsers with
  | nil => rfl
  | cons first others ih =>
      funext cursor output
      change (first.either (choice others)).run env cursor output =
        (first.run env).orElse (.choice (others.map (Parser.run env))) cursor output
      rw [← ih]
      rfl

end Parser

end DiceChat.Scan
