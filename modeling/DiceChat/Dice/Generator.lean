/-!
This file holds the random source of every dice roll. The generator is mulberry32 in counter form:
each raw draw is a function of the seed and the number of draws so far. A roll rejects the draws
at the top of the range, so that all faces are equally likely. It always ends, because the state
zero is reached in every period and every die accepts the draw it gives.
-/

namespace DiceChat

/-- Every message has one seed. -/
structure Seed where
  value : UInt32
  deriving DecidableEq, Repr

/-- A stored seed has its most significant byte first. -/
def Seed.ofBytes (first second third fourth : UInt8) : Seed :=
  ⟨first.toUInt32 <<< 24 ||| second.toUInt32 <<< 16 ||| third.toUInt32 <<< 8 |||
    fourth.toUInt32⟩

/-- A generator is its seed and the number of raw draws taken, counted modulo 2³². -/
structure Generator where
  seed : UInt32
  draws : UInt32
  deriving DecidableEq, Repr

namespace Generator

/-- The state moves by this step with each draw. -/
def increment : UInt32 := 0x6D2B79F5

/-- The output function mixes a state into a draw. -/
def mix (state : UInt32) : UInt32 :=
  let first := (state ^^^ (state >>> 15)) * (state ||| 1)
  let second := (first + (first ^^^ (first >>> 7)) * (first ||| 61)) ^^^ first
  second ^^^ (second >>> 14)

/-- A new generator has taken no draws. -/
def ofSeed (seed : Seed) : Generator := ⟨seed.value, 0⟩

/-- This state gave the last draw. -/
def state (generator : Generator) : UInt32 :=
  generator.seed + generator.draws * increment

/-- Counting a draw moves the state by one step. -/
def advance (generator : Generator) : Generator :=
  { generator with draws := generator.draws + 1 }

/-- This takes the next raw draw. -/
def next (generator : Generator) : UInt32 × Generator :=
  (mix generator.advance.state, generator.advance)

/-- The draws below this bound are a whole number of rounds through the faces. -/
def threshold (face : UInt32) : Nat :=
  UInt32.size / max face.toNat 1 * max face.toNat 1

/-- A raw draw below the threshold gives a side of the die. -/
def accept (face draw : UInt32) : Option UInt32 :=
  if draw.toNat < threshold face then some (draw % face + 1) else none

/-- This word inverts the increment modulo 2³². -/
def incrementInverse : UInt32 := 0xDC58AA5D

/-- This many more draws are rejected at most, because the draw after them has state zero. -/
def drawsToZero (generator : Generator) : Nat :=
  ((0 - generator.advance.state) * incrementInverse).toNat

theorem state_advance (generator : Generator) :
    generator.advance.state = generator.state + increment := by
  simp only [advance, state]
  grind

/-- The threshold is positive for every die. -/
theorem threshold_positive (face : UInt32) : 0 < threshold face := by
  have small := face.toNat_lt
  have bounded : max face.toNat 1 ≤ UInt32.size := by
    rw [UInt32.size]
    omega
  have least : 0 < max face.toNat 1 := by omega
  exact Nat.mul_pos (Nat.div_pos bounded least) least

/-- Every die accepts the draw of state zero. -/
theorem accept_mix_zero (face : UInt32) : accept face (mix 0) ≠ none := by
  have zero : (mix 0).toNat = 0 := by decide
  simp [accept, zero, threshold_positive face]

/-- A rejected draw leaves fewer draws before state zero. -/
theorem drawsToZero_advance_lt {generator : Generator} {face : UInt32}
    (rejected : accept face (mix generator.advance.state) = none) :
    generator.advance.drawsToZero < generator.drawsToZero := by
  have moved : generator.advance.state ≠ 0 := by
    intro zero
    rw [zero] at rejected
    exact accept_mix_zero face rejected
  have step : (0 - generator.advance.advance.state) * incrementInverse =
      (0 - generator.advance.state) * incrementInverse - 1 := by
    rw [state_advance generator.advance, increment, incrementInverse]
    grind
  have positive : (0 - generator.advance.state) * incrementInverse ≠ 0 := by
    intro zero
    apply moved
    have back : (0 - generator.advance.state) * incrementInverse * increment =
        0 - generator.advance.state := by
      rw [increment, incrementInverse]
      grind
    rw [zero] at back
    grind
  have least : 1 ≤ (0 - generator.advance.state) * incrementInverse := by
    rw [UInt32.le_iff_toNat_le]
    exact Nat.pos_of_ne_zero fun zero => positive (UInt32.toNat_inj.mp zero)
  rw [drawsToZero, drawsToZero, step, UInt32.toNat_sub_of_le _ _ least]
  rw [UInt32.le_iff_toNat_le] at least
  exact Nat.sub_lt least (by decide)

/-- A sample repeats the draw until the die accepts it. -/
def sample (face : UInt32) (generator : Generator) : UInt32 × Generator :=
  if rejected : accept face (mix generator.advance.state) = none then
    sample face generator.advance
  else
    ((accept face (mix generator.advance.state)).get (Option.isSome_iff_ne_none.mpr rejected),
      generator.advance)
termination_by generator.drawsToZero
decreasing_by exact drawsToZero_advance_lt rejected

/-- An accepted draw gives the sample and the generator after it. -/
theorem sample_of_accept {face side : UInt32} {generator : Generator}
    (accepted : accept face generator.next.1 = some side) :
    generator.sample face = (side, generator.next.2) := by
  simp only [next] at accepted ⊢
  rw [sample]
  simp [accepted]

/-- A rejected draw goes on with the generator after it. -/
theorem sample_of_reject {face : UInt32} {generator : Generator}
    (rejected : accept face generator.next.1 = none) :
    generator.sample face = generator.next.2.sample face := by
  simp only [next] at rejected ⊢
  rw [sample]
  simp [rejected]

/-- A die without faces has no roll and takes no draw. -/
def roll (face : UInt32) (generator : Generator) : Option UInt32 × Generator :=
  if face = 0 then (none, generator)
  else
    let sampled := generator.sample face
    (some sampled.1, sampled.2)

/-- Equal dice are sampled one after the other. -/
def sampleMany (face : UInt32) : Nat → Generator → List UInt32 × Generator
  | 0, generator => ([], generator)
  | count + 1, generator =>
      let first := generator.sample face
      let others := sampleMany face count first.2
      (first.1 :: others.1, others.2)

end Generator

end DiceChat
