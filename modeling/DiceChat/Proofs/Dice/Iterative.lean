import DiceChat.Proofs.Dice.Sources

/-!
This file compares the counter form of the generator with the iterative one, which keeps its state
and adds one increment to it for each draw. A recorder takes the same draws as a generator and
writes all of them down. After any calls, what it has written down are the outputs of the iterative
generator in their order.
-/

namespace DiceChat

/-- The iterative generator adds the increment to its state and mixes the sum. -/
def iterativeDraws : Nat → UInt32 → List UInt32
  | 0, _ => []
  | count + 1, state =>
      Generator.mix (state + 0x6D2B79F5) :: iterativeDraws count (state + 0x6D2B79F5)

/-- A recorder writes down the draws that it takes from a generator. -/
structure Recorder where
  generator : Generator
  taken : List UInt32
  deriving DecidableEq, Repr

namespace Recorder

def ofSeed (seed : Seed) : Recorder := ⟨.ofSeed seed, []⟩

/-- This takes the next raw draw. -/
def next (recorder : Recorder) : UInt32 × Recorder :=
  (recorder.generator.next.1,
    ⟨recorder.generator.next.2, recorder.taken ++ [recorder.generator.next.1]⟩)

/-- A sample repeats the draw until the die accepts it. -/
def sample (face : UInt32) (recorder : Recorder) : UInt32 × Recorder :=
  if rejected : Generator.accept face recorder.next.1 = none then
    sample face recorder.next.2
  else
    ((Generator.accept face recorder.next.1).get (Option.isSome_iff_ne_none.mpr rejected),
      recorder.next.2)
termination_by recorder.generator.drawsToZero
decreasing_by exact Generator.drawsToZero_advance_lt rejected

/-- A die without faces has no roll and takes no draw. -/
def roll (face : UInt32) (recorder : Recorder) : Option UInt32 × Recorder :=
  if face = 0 then (none, recorder)
  else
    let sampled := recorder.sample face
    (some sampled.1, sampled.2)

/-- A recorder answers the calls. -/
def source : Source Recorder := ⟨next, roll, Expr.evaluateFrom sample 0⟩

end Recorder

/-- The recorder has the generator, which counts the draws that are written down, and they are the
outputs of the iterative generator. -/
structure Recorder.Records (seed : UInt32) (recorder : Recorder) (generator : Generator) : Prop where
  same : recorder.generator = generator
  seeded : generator.seed = seed
  counted : generator.draws = UInt32.ofNat recorder.taken.length
  iterated : recorder.taken = iterativeDraws recorder.taken.length seed

/-- One more draw moves the state of the iterative generator by one more step. -/
theorem iterativeDraws_succ (count : Nat) (state : UInt32) :
    iterativeDraws (count + 1) state = iterativeDraws count state ++
      [Generator.mix (state + UInt32.ofNat (count + 1) * Generator.increment)] := by
  induction count generalizing state with
  | zero => simp [iterativeDraws, Generator.increment]
  | succ count ih =>
      have moved : state + 0x6D2B79F5 + UInt32.ofNat (count + 1) * Generator.increment =
          state + UInt32.ofNat (count + 2) * Generator.increment := by
        rw [show count + 2 = count + 1 + 1 from rfl, UInt32.ofNat_add (count + 1) 1,
          Generator.increment]
        grind
      rw [iterativeDraws, ih, moved]
      rfl

namespace Recorder

variable {seed : UInt32} {recorder : Recorder} {generator : Generator}

/-- A recorded draw is the next output of the iterative generator. -/
theorem Records.next (records : recorder.Records seed generator) :
    Alike (Records seed) recorder.next generator.next := by
  obtain ⟨rfl, seeded, counted, iterated⟩ := records
  have count : recorder.next.2.taken.length = recorder.taken.length + 1 := by simp [Recorder.next]
  have counts : recorder.generator.advance.draws = UInt32.ofNat (recorder.taken.length + 1) := by
    rw [Generator.advance, counted, UInt32.ofNat_add]
    rfl
  refine ⟨rfl, rfl, seeded, ?_, ?_⟩
  · rw [count]
    exact counts
  · rw [count, iterativeDraws_succ, ← iterated, ← counts, ← seeded]
    rfl

/-- A recorded sample is a sample. -/
theorem Records.sample (face : UInt32) (records : recorder.Records seed generator) :
    Alike (Records seed) (recorder.sample face) (generator.sample face) := by
  fun_induction Recorder.sample face recorder generalizing generator with
  | case1 recorder rejected ih =>
      obtain ⟨draw, after⟩ := records.next
      rw [draw] at rejected
      rw [Generator.sample_of_reject rejected]
      exact ih after
  | case2 recorder accepted =>
      obtain ⟨draw, after⟩ := records.next
      obtain ⟨side, isSide⟩ := Option.ne_none_iff_exists'.mp accepted
      have sampled : generator.sample face = (side, generator.next.2) :=
        Generator.sample_of_accept (draw ▸ isSide)
      rw [sampled]
      exact ⟨Option.get_of_eq_some _ isSide, after⟩

theorem Records.roll (face : UInt32) (records : recorder.Records seed generator) :
    Alike (Records seed) (recorder.roll face) (generator.roll face) := by
  have alike := records.sample face
  -- Both samples are split into pairs, so that no check ever unfolds their loops.
  rcases isFirst : recorder.sample face with ⟨side, recorded⟩
  rcases isSecond : generator.sample face with ⟨_, after⟩
  rw [isFirst, isSecond] at alike
  obtain ⟨rfl, ends⟩ := alike
  rw [Recorder.roll, Generator.roll, isFirst, isSecond]
  split_ifs
  · exact ⟨rfl, records⟩
  · exact ⟨rfl, ends⟩

theorem Records.evaluate (node : Expr) (records : recorder.Records seed generator) :
    Alike (Records seed) (node.evaluateFrom Recorder.sample 0 recorder)
      (node.evaluate generator) := by
  rw [Expr.evaluate, ← evaluateFrom_sample]
  exact evaluateFrom_alike (fun face _ _ records => records.sample face) 0 node records

/-- A recorder answers each call like its generator. -/
theorem Records.answer (call : Call) (records : recorder.Records seed generator) :
    Alike (Records seed) (source.answer call recorder) (Generator.source.answer call generator) := by
  cases call with
  | next => exact records.next.map _
  | roll face => exact (records.roll face).map _
  | evaluate node => exact (records.evaluate node).map _

/-- A new recorder has nothing written down. -/
theorem records_ofSeed (seed : Seed) : (ofSeed seed).Records seed.value (.ofSeed seed) :=
  ⟨rfl, rfl, rfl, rfl⟩

end Recorder

/-- After any calls, a recorder has given the answers of the generator and stands where it stands.
The draws it has written down are the outputs of the iterative generator from the seed on, and the
generator counts them modulo 2³². -/
theorem answers_iterative (seed : Seed) (calls : List Call) :
    (Recorder.source.answers calls (.ofSeed seed)).1 =
        (Generator.source.answers calls (.ofSeed seed)).1 ∧
      (Recorder.source.answers calls (.ofSeed seed)).2.generator =
          (Generator.source.answers calls (.ofSeed seed)).2 ∧
        (Recorder.source.answers calls (.ofSeed seed)).2.taken =
            iterativeDraws (Recorder.source.answers calls (.ofSeed seed)).2.taken.length
              seed.value ∧
          (Generator.source.answers calls (.ofSeed seed)).2.draws.toNat =
            (Recorder.source.answers calls (.ofSeed seed)).2.taken.length % UInt32.size := by
  obtain ⟨same, records⟩ := Source.answers_alike
    (fun call _ _ records => Recorder.Records.answer call records) calls
    (Recorder.records_ofSeed seed)
  refine ⟨same, records.same, records.iterated, ?_⟩
  rw [records.counted]
  exact UInt32.toNat_ofNat'

/-- The first die is so large that it rejects the first draw of the reference seed. A die without
faces draws nothing, alone or in an expression. -/
def referenceCalls : List Call :=
  [.roll 2147483649, .next, .roll 0, .roll 20, .evaluate (.binary .add (.roll 1 20) (.roll 1 0))]

/-- These calls draw the first five numbers of the reference vector, the rejected one included. -/
theorem answers_iterative_reference :
    (Recorder.source.answers referenceCalls (.ofSeed ⟨12345⟩)).1 =
        (Generator.source.answers referenceCalls (.ofSeed ⟨12345⟩)).1 ∧
      (Generator.source.answers referenceCalls (.ofSeed ⟨12345⟩)).2 = ⟨12345, 5⟩ ∧
      (Recorder.source.answers referenceCalls (.ofSeed ⟨12345⟩)).2 = ⟨⟨12345, 5⟩,
        [4207900869, 1317490944, 2079646450, 3513001552, 2187978186]⟩ ∧
      iterativeDraws 5 12345 = [4207900869, 1317490944, 2079646450, 3513001552, 2187978186] := by
  obtain ⟨same, -, iterated, -⟩ := answers_iterative ⟨12345⟩ referenceCalls
  have recorded : (Recorder.source.answers referenceCalls (.ofSeed ⟨12345⟩)).2 = ⟨⟨12345, 5⟩,
      [4207900869, 1317490944, 2079646450, 3513001552, 2187978186]⟩ := by
    decide +kernel
  rw [recorded] at iterated
  exact ⟨same, by decide +kernel, recorded, iterated.symm⟩

end DiceChat
