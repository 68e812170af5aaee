import DiceChat.Proofs.Dice.Arithmetic
import DiceChat.Proofs.Dice.Evaluates
import DiceChat.Proofs.Dice.Sampling

/-!
This file compares the draws of an evaluation with rolling dice one after the other. The dice of an
expression are written down from left to right, each roll with its own number of them. A result
shows exactly their sides in this order, and a failure has rolled the dice of some first rolls only.
-/

namespace DiceChat

/-- These are the rolls of an expression from left to right, each with its number of dice and their
face. -/
def Expr.rolls : Expr → List (UInt32 × UInt32)
  | .num _ => []
  | .roll counter face => [(counter, face)]
  | .binary _ left right => rolls left ++ rolls right

/-- A roll has as many equal dice as it says. -/
def diceOf (rolls : List (UInt32 × UInt32)) : List UInt32 :=
  rolls.flatMap fun roll => List.replicate roll.1.toNat roll.2

/-- These are the values of all rolls in a result from left to right. -/
def Evaluated.values : Evaluated → List Int64
  | .num _ => []
  | .roll _ _ values _ => values
  | .binary _ left right _ => values left ++ values right

/-- Dice are rolled one after the other. -/
def Generator.rollAll : List UInt32 → Generator → List (Option UInt32) × Generator
  | [], generator => ([], generator)
  | face :: faces, generator =>
      let first := generator.roll face
      let others := rollAll faces first.2
      (first.1 :: others.1, others.2)

theorem diceOf_append (first second : List (UInt32 × UInt32)) :
    diceOf (first ++ second) = diceOf first ++ diceOf second :=
  List.flatMap_append

/-- The second dice are rolled from where the first leave the generator. -/
theorem Generator.rollAll_append (first second : List UInt32) (generator : Generator) :
    generator.rollAll (first ++ second) =
      ((generator.rollAll first).1 ++ ((generator.rollAll first).2.rollAll second).1,
        ((generator.rollAll first).2.rollAll second).2) := by
  induction first generalizing generator with
  | nil => rfl
  | cons face faces ih => simp only [List.cons_append, rollAll, ih]

/-- Equal dice with faces are rolled like their samples. -/
theorem Generator.rollAll_replicate {face : UInt32} (sided : face ≠ 0) (count : Nat)
    (generator : Generator) :
    generator.rollAll (List.replicate count face) =
      ((generator.sampleMany face count).1.map some, (generator.sampleMany face count).2) := by
  induction count generalizing generator with
  | zero => rfl
  | succ count ih =>
      cases sampled : generator.sample face with
      | mk side after =>
          have first : generator.roll face = (some side, after) := by
            rw [roll, if_neg sided, sampled]
          rw [List.replicate_succ, rollAll, first, ih, sampleMany, sampled, List.map_cons]

/-- If a roll itself fails, it is the next one. -/
def EvalError.Blames : EvalError → List (UInt32 × UInt32) → Prop
  | .tooManyDice counter _, rolls => ∃ face others, rolls = (counter, face) :: others
  | .zeroFace, rolls => ∃ counter others, rolls = (counter, 0) :: others
  | _, _ => True

/-- A result shows the sides of all dice of its expression in their order, and the generator ends
where rolling them leaves it. A failure ends where rolling the dice of some first rolls leaves it,
and a roll that fails is not among them. -/
def Expr.DrawsInOrder (node : Expr) (generator : Generator) :
    Except EvalError Evaluated → Generator → Prop
  | .ok result, after =>
      (generator.rollAll (diceOf node.rolls)).1.map (Option.map fun side => (side.toNat : Int)) =
          result.values.map (fun value => some value.toInt) ∧
        (generator.rollAll (diceOf node.rolls)).2 = after
  | .error error, after =>
      ∃ earlier later, node.rolls = earlier ++ later ∧
        (generator.rollAll (diceOf earlier)).2 = after ∧ error.Blames later

theorem EvalError.Blames.append {error : EvalError} {rolls : List (UInt32 × UInt32)}
    (blames : error.Blames rolls) (others : List (UInt32 × UInt32)) :
    error.Blames (rolls ++ others) := by
  cases error with
  | tooManyDice counter most =>
      obtain ⟨face, later, rfl⟩ := blames
      exact ⟨face, later ++ others, rfl⟩
  | zeroFace =>
      obtain ⟨counter, later, rfl⟩ := blames
      exact ⟨counter, later ++ others, rfl⟩
  | divisionByZero => trivial
  | overflow => trivial
  | tooDeep most => trivial

/-- An operator blames no roll. -/
theorem Operator.blames_nil {operator : Operator} {left right : Int64} {error : EvalError}
    (fails : operator.apply left right = .error error) : error.Blames [] := by
  have fault := Operator.apply_eq_error_iff.mp fails
  rw [Operator.fault?] at fault
  split_ifs at fault
  · obtain rfl := Option.some.inj fault
    trivial
  · obtain rfl := Option.some.inj fault
    trivial

/-- Two expressions side by side have the dice of both. -/
theorem rollAll_binary (operator : Operator) (left right : Expr) (generator : Generator) :
    generator.rollAll (diceOf (Expr.rolls (.binary operator left right))) =
      ((generator.rollAll (diceOf left.rolls)).1 ++
          ((generator.rollAll (diceOf left.rolls)).2.rollAll (diceOf right.rolls)).1,
        ((generator.rollAll (diceOf left.rolls)).2.rollAll (diceOf right.rolls)).2) := by
  rw [Expr.rolls, diceOf_append, Generator.rollAll_append]

/-- A roll shows the sides of its dice. -/
theorem drawsInOrder_roll (counter : UInt32) {face : UInt32} (sided : face ≠ 0)
    (generator : Generator) :
    Expr.DrawsInOrder (.roll counter face) generator
      (.ok (.ofSides counter face (generator.sampleMany face counter.toNat).1))
      (generator.sampleMany face counter.toNat).2 := by
  have dice : diceOf (Expr.rolls (.roll counter face)) = List.replicate counter.toNat face := by
    simp [Expr.rolls, diceOf]
  rw [Expr.DrawsInOrder, dice, Generator.rollAll_replicate sided]
  refine ⟨?_, rfl⟩
  simp only [Evaluated.ofSides, Evaluated.values, List.map_map]
  apply List.map_congr_left
  intro side _
  exact congrArg some (toInt_side side).symm

/-- Every evaluation draws in order. -/
theorem Evaluates.drawsInOrder {level : Nat} {node : Expr} {generator after : Generator}
    {result : Except EvalError Evaluated}
    (evaluates : Evaluates level node generator result after) :
    node.DrawsInOrder generator result after := by
  induction evaluates with
  | tooDeep below => exact ⟨[], _, rfl, rfl, trivial⟩
  | num reached => exact ⟨rfl, rfl⟩
  | tooManyDice reached many => exact ⟨[], _, rfl, rfl, _, [], rfl⟩
  | zeroFace reached few => exact ⟨[], _, rfl, rfl, _, [], rfl⟩
  | roll reached few sided => exact drawsInOrder_roll _ sided _
  | @leftFails _ _ left right _ _ _ reached _ leftDraws =>
      obtain ⟨earlier, later, split, ends, blames⟩ := leftDraws
      refine ⟨earlier, later ++ right.rolls, ?_, ends, blames.append _⟩
      rw [Expr.rolls, split, List.append_assoc]
  | @rightFails _ _ left right _ _ _ _ _ reached _ _ leftDraws rightDraws =>
      obtain ⟨-, isMiddle⟩ := leftDraws
      obtain ⟨earlier, later, split, ends, blames⟩ := rightDraws
      refine ⟨left.rolls ++ earlier, later, ?_, ?_, blames⟩
      · rw [Expr.rolls, split, List.append_assoc]
      · rw [diceOf_append, Generator.rollAll_append, isMiddle, ends]
  | operatorFails reached _ _ operatorFails leftDraws rightDraws =>
      obtain ⟨-, isMiddle⟩ := leftDraws
      obtain ⟨-, isAfter⟩ := rightDraws
      refine ⟨_, [], (List.append_nil _).symm, ?_, Operator.blames_nil operatorFails⟩
      rw [rollAll_binary, isMiddle, isAfter]
  | binary reached _ _ applies leftDraws rightDraws =>
      obtain ⟨leftSides, isMiddle⟩ := leftDraws
      obtain ⟨rightSides, isAfter⟩ := rightDraws
      rw [Expr.DrawsInOrder, rollAll_binary, isMiddle]
      refine ⟨?_, isAfter⟩
      rw [List.map_append, leftSides, rightSides, Evaluated.values, List.map_append]

/-- From every state of the generator, an evaluation takes the draws that rolling the dice of its
expression one after the other takes, and a failure stops before some roll. -/
theorem evaluate_drawsInOrder (node : Expr) (generator : Generator) :
    node.DrawsInOrder generator (node.evaluate generator).1 (node.evaluate generator).2 :=
  (evaluates_evaluateAt 0 node generator).drawsInOrder

/-- The second die has no faces, and a third one is behind it. -/
def blankDie : Expr := .binary .add (.roll 2 6) (.binary .mul (.roll 1 0) (.roll 1 20))

/-- Only the dice before the one without faces are rolled, so it takes no draw itself. -/
theorem evaluate_drawsInOrder_blankDie :
    blankDie.evaluate (.ofSeed ⟨7⟩) = (.error .zeroFace, ⟨7, 2⟩) ∧
      ∃ earlier later, earlier = [(2, 6)] ∧ later = [(1, 0), (1, 20)] ∧
        blankDie.rolls = earlier ++ later ∧
        (Generator.ofSeed ⟨7⟩).rollAll (diceOf earlier) = ([some 5, some 3], ⟨7, 2⟩) := by
  have fails : blankDie.evaluate (.ofSeed ⟨7⟩) = (.error .zeroFace, ⟨7, 2⟩) := by decide +kernel
  have ordered := evaluate_drawsInOrder blankDie (.ofSeed ⟨7⟩)
  rw [fails] at ordered
  obtain ⟨earlier, later, split, -, counter, others, rfl⟩ := ordered
  rw [show blankDie.rolls = [(2, 6), (1, 0), (1, 20)] from rfl] at split
  -- The failing roll is the only one without faces, so the dice before it are the first two.
  rcases earlier with _ | ⟨first, _ | ⟨second, more⟩⟩
  · exact absurd (List.cons.inj split).1 (by simp)
  · obtain ⟨rfl, isLater⟩ := List.cons.inj split
    exact ⟨fails, _, _, rfl, isLater.symm, split, by decide +kernel⟩
  · have blank : (counter, 0) ∈ [((1 : UInt32), (20 : UInt32))] := by
      rw [(List.cons.inj (List.cons.inj split).2).2]
      simp
    exact absurd (List.mem_singleton.mp blank) (by simp)

end DiceChat
