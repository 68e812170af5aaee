import Mathlib.Logic.Basic
import Mathlib.Tactic.SplitIfs
import DiceChat.Dice.Evaluation

/-!
This file answers calls from any source of draws. A generator is one source, and its answers are its
own draws, rolls and evaluations. Two sources whose samples are alike cannot be told apart: they give
the same answers to any calls, and their states stay related.
-/

namespace DiceChat

/-- These calls take draws from a generator. -/
inductive Call where
  | next
  | roll (face : UInt32)
  | evaluate (node : Expr)
  deriving DecidableEq, Repr

/-- Every call has its kind of answer. -/
inductive Answer where
  | draw (draw : UInt32)
  | side (side : Option UInt32)
  | result (result : Except EvalError Evaluated)

/-- A source answers the calls and moves its state. -/
structure Source (State : Type) where
  next : State → UInt32 × State
  roll : UInt32 → State → Option UInt32 × State
  evaluate : Expr → State → Except EvalError Evaluated × State

namespace Source

variable {State : Type}

/-- This answers one call. -/
def answer (source : Source State) : Call → State → Answer × State
  | .next, state => (source.next state).map .draw id
  | .roll face, state => (source.roll face state).map .side id
  | .evaluate node, state => (source.evaluate node state).map .result id

/-- This answers one call after the other. -/
def answers (source : Source State) : List Call → State → List Answer × State
  | [], state => ([], state)
  | call :: calls, state =>
      let first := source.answer call state
      let others := answers source calls first.2
      (first.1 :: others.1, others.2)

end Source

section Samplers

variable {State : Type}

/-- A failure ends an evaluation, and a result is passed on. -/
def evaluateThen (first : Except EvalError Evaluated × State)
    (later : Evaluated → State → Except EvalError Evaluated × State) :
    Except EvalError Evaluated × State :=
  match first with
  | (.error error, state) => (.error error, state)
  | (.ok result, state) => later result state

variable (sampler : UInt32 → State → UInt32 × State)

/-- Equal dice are sampled one after the other. -/
def sampleManyFrom (face : UInt32) : Nat → State → List UInt32 × State
  | 0, state => ([], state)
  | count + 1, state =>
      let first := sampler face state
      let others := sampleManyFrom face count first.2
      (first.1 :: others.1, others.2)

/-- This is the evaluation with samples from any state. -/
def Expr.evaluateFrom (level : Nat) (expr : Expr) (state : State) :
    Except EvalError Evaluated × State :=
  if maxEvaluationDepth < level then
    (.error (.tooDeep (UInt64.ofNat maxEvaluationDepth)), state)
  else
    match expr with
    | .num value => (.ok (.num value), state)
    | .roll counter face =>
        if maxDice < counter then (.error (.tooManyDice counter maxDice), state)
        else if face = 0 then (.error .zeroFace, state)
        else
          (sampleManyFrom sampler face counter.toNat state).map
            (fun sides => .ok (.ofSides counter face sides)) id
    | .binary operator left right =>
        evaluateThen (evaluateFrom (level + 1) left state) fun first middle =>
          evaluateThen (evaluateFrom (level + 1) right middle) fun second after =>
            ((operator.apply first.value second.value).map (.binary operator first second), after)

end Samplers

theorem sampleManyFrom_sample (face : UInt32) (count : Nat) (generator : Generator) :
    sampleManyFrom Generator.sample face count generator = generator.sampleMany face count := by
  induction count generalizing generator with
  | zero => rfl
  | succ count ih => rw [sampleManyFrom, Generator.sampleMany, ih]

/-- With the samples of a generator this is the evaluation itself. -/
theorem evaluateFrom_sample (level : Nat) (node : Expr) (generator : Generator) :
    node.evaluateFrom Generator.sample level generator = node.evaluateAt level generator := by
  induction node generalizing level generator with
  | num value => rw [Expr.evaluateFrom, Expr.evaluateAt]
  | roll counter face =>
      rw [Expr.evaluateFrom, Expr.evaluateAt, sampleManyFrom_sample]
      rfl
  | binary operator left right leftSame rightSame =>
      rw [Expr.evaluateFrom, Expr.evaluateAt, leftSame]
      split
      · rfl
      · rcases Expr.evaluateAt (level + 1) left generator with ⟨error | first, middle⟩
        · rfl
        · dsimp only [evaluateThen]
          rw [rightSame]
          rcases Expr.evaluateAt (level + 1) right middle with ⟨error | second, after⟩
          · rfl
          · dsimp only
            cases operator.apply first.value second.value <;> rfl

/-- A generator answers the calls. -/
def Generator.source : Source Generator := ⟨Generator.next, Generator.roll, Expr.evaluate⟩

/-- Two outcomes are alike if they have the same value and related states. -/
def Alike {Value First Second : Type} (Related : First → Second → Prop)
    (first : Value × First) (second : Value × Second) : Prop :=
  first.1 = second.1 ∧ Related first.2 second.2

section Simulation

variable {First Second : Type} {Related : First → Second → Prop}

theorem Alike.map {Value Image : Type} {first : Value × First} {second : Value × Second}
    (alike : Alike Related first second) (image : Value → Image) :
    Alike Related (first.map image id) (second.map image id) :=
  ⟨congrArg image alike.1, alike.2⟩

theorem Alike.evaluateThen {first : Except EvalError Evaluated × First}
    {second : Except EvalError Evaluated × Second} (alike : Alike Related first second)
    {firstLater : Evaluated → First → Except EvalError Evaluated × First}
    {secondLater : Evaluated → Second → Except EvalError Evaluated × Second}
    (later : ∀ result first second, Related first second →
      Alike Related (firstLater result first) (secondLater result second)) :
    Alike Related (evaluateThen first firstLater) (evaluateThen second secondLater) := by
  obtain ⟨result, first⟩ := first
  obtain ⟨_, second⟩ := second
  obtain ⟨rfl, related⟩ := alike
  cases result with
  | error error => exact ⟨rfl, related⟩
  | ok result => exact later result first second related

variable {firstSampler : UInt32 → First → UInt32 × First}
  {secondSampler : UInt32 → Second → UInt32 × Second}

theorem sampleManyFrom_alike
    (sampled : ∀ face first second, Related first second →
      Alike Related (firstSampler face first) (secondSampler face second))
    (face : UInt32) (count : Nat) {first : First} {second : Second}
    (related : Related first second) :
    Alike Related (sampleManyFrom firstSampler face count first)
      (sampleManyFrom secondSampler face count second) := by
  induction count generalizing first second with
  | zero => exact ⟨rfl, related⟩
  | succ count ih =>
      obtain ⟨side, after⟩ := sampled face first second related
      obtain ⟨others, ends⟩ := ih after
      exact ⟨congrArg₂ List.cons side others, ends⟩

/-- Alike samples give alike evaluations. -/
theorem evaluateFrom_alike
    (sampled : ∀ face first second, Related first second →
      Alike Related (firstSampler face first) (secondSampler face second))
    (level : Nat) (node : Expr) {first : First} {second : Second}
    (related : Related first second) :
    Alike Related (node.evaluateFrom firstSampler level first)
      (node.evaluateFrom secondSampler level second) := by
  induction node generalizing level first second with
  | num value =>
      rw [Expr.evaluateFrom, Expr.evaluateFrom]
      split_ifs
      · exact ⟨rfl, related⟩
      · exact ⟨rfl, related⟩
  | roll counter face =>
      rw [Expr.evaluateFrom, Expr.evaluateFrom]
      split_ifs
      · exact ⟨rfl, related⟩
      · exact ⟨rfl, related⟩
      · exact ⟨rfl, related⟩
      · exact (sampleManyFrom_alike sampled face counter.toNat related).map _
  | binary operator left right leftAlike rightAlike =>
      rw [Expr.evaluateFrom, Expr.evaluateFrom]
      split_ifs
      · exact ⟨rfl, related⟩
      · refine (leftAlike (level + 1) related).evaluateThen fun result first second related => ?_
        refine (rightAlike (level + 1) related).evaluateThen fun result first second related => ?_
        exact ⟨rfl, related⟩

/-- Sources with alike answers to each call have alike answers to all of them. -/
theorem Source.answers_alike {firstSource : Source First} {secondSource : Source Second}
    (answered : ∀ call first second, Related first second →
      Alike Related (firstSource.answer call first) (secondSource.answer call second))
    (calls : List Call) {first : First} {second : Second} (related : Related first second) :
    Alike Related (firstSource.answers calls first) (secondSource.answers calls second) := by
  induction calls generalizing first second with
  | nil => exact ⟨rfl, related⟩
  | cons call calls ih =>
      obtain ⟨same, after⟩ := answered call first second related
      obtain ⟨others, ends⟩ := ih after
      exact ⟨congrArg₂ List.cons same others, ends⟩

end Simulation

end DiceChat
