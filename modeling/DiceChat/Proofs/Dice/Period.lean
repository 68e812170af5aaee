import Mathlib.Data.Nat.Find
import DiceChat.Proofs.Dice.Sampling

/-!
This file says why every roll ends. The increment has an inverse modulo 2³², so the next 2³² draws
visit every state. One of them has state zero, and every die accepts it.
-/

namespace DiceChat

namespace Generator

/-- This is the generator after so many more raw draws. -/
def after : Nat → Generator → Generator
  | 0, generator => generator
  | count + 1, generator => after count generator.next.2

/-- This is the raw draw that follows after so many others. -/
def upcoming (count : Nat) (generator : Generator) : UInt32 := (generator.after count).next.1

/-- A roll stopped after so many raw draws has no answer if the die rejects all of them. -/
def rollWithin (face : UInt32) : Nat → Generator → Option (Option UInt32 × Generator)
  | 0, _ => none
  | limit + 1, generator =>
      if accept face generator.next.1 = none then rollWithin face limit generator.next.2
      else some (accept face generator.next.1, generator.next.2)

/-- Each draw adds one increment to the state. -/
theorem state_after (count : Nat) (generator : Generator) :
    (generator.after count).state = generator.state + UInt32.ofNat count * increment := by
  induction count generalizing generator with
  | zero => simp [after]
  | succ count ih =>
      have moved : generator.next.2.state = generator.state + increment := state_advance generator
      rw [after, ih, moved, UInt32.ofNat_add]
      grind

/-- The next 2³² draws visit every state. -/
theorem exists_state_after (generator : Generator) (target : UInt32) :
    ∃ count, count < UInt32.size ∧ (generator.after count).next.2.state = target := by
  let steps := (target - generator.advance.state) * incrementInverse
  have covered : steps * increment = target - generator.advance.state := by
    simp only [steps, increment, incrementInverse]
    grind
  refine ⟨steps.toNat, steps.toNat_lt, ?_⟩
  have moved : (generator.after steps.toNat).next.2.state =
      (generator.after steps.toNat).state + increment := state_advance _
  rw [moved, state_after, UInt32.ofNat_toNat, covered, state_advance]
  grind

/-- Of the next 2³² draws, every die accepts at least one. -/
theorem exists_upcoming_lt (generator : Generator) (face : UInt32) :
    ∃ count, count < UInt32.size ∧ (generator.upcoming count).toNat < threshold face := by
  obtain ⟨count, within, zero⟩ := generator.exists_state_after 0
  refine ⟨count, within, Nat.not_le.mp fun rejected => ?_⟩
  have isMixed : generator.upcoming count = mix 0 := congrArg mix zero
  rw [isMixed] at rejected
  exact accept_mix_zero face (accept_eq_none_iff.mpr rejected)

/-- An answer of a stopped roll is the answer of the roll. -/
theorem roll_of_rollWithin {face : UInt32} {limit : Nat} {generator : Generator}
    {result : Option UInt32 × Generator} (sided : face ≠ 0)
    (answered : generator.rollWithin face limit = some result) :
    generator.roll face = result := by
  induction limit generalizing generator with
  | zero => exact absurd answered (by simp [rollWithin])
  | succ limit ih =>
      rw [rollWithin] at answered
      cases first : accept face generator.next.1 with
      | none =>
          rw [if_pos first] at answered
          have later := ih answered
          rw [roll, if_neg sided] at later ⊢
          rwa [sample_of_reject first]
      | some side =>
          rw [first, if_neg (by simp)] at answered
          rw [roll, if_neg sided, sample_of_accept first]
          exact Option.some.inj answered

/-- A roll stopped right after the first accepted draw has its answer. -/
theorem rollWithin_of_first {face side : UInt32} {count : Nat} {generator : Generator}
    (rejected : ∀ earlier < count, accept face (generator.upcoming earlier) = none)
    (accepted : accept face (generator.upcoming count) = some side) :
    generator.rollWithin face (count + 1) = some (some side, generator.after (count + 1)) := by
  induction count generalizing generator with
  | zero =>
      have first : accept face generator.next.1 = some side := accepted
      rw [rollWithin, first, if_neg (by simp)]
      rfl
  | succ count ih =>
      have first : accept face generator.next.1 = none := rejected 0 (Nat.succ_pos count)
      rw [rollWithin, if_pos first]
      exact ih (fun earlier less => rejected (earlier + 1) (Nat.succ_lt_succ less)) accepted

/-- From every state, a roll rejects fewer than 2³² draws. It ends with the first one below the
threshold. -/
theorem roll_ends (generator : Generator) {face : UInt32} (sided : face ≠ 0) :
    ∃ rejected, rejected < UInt32.size ∧
      (∀ earlier < rejected, threshold face ≤ (generator.upcoming earlier).toNat) ∧
        (generator.upcoming rejected).toNat < threshold face ∧
          generator.rollWithin face (rejected + 1) = some (generator.roll face) ∧
            generator.roll face =
              (some (generator.upcoming rejected % face + 1), generator.after (rejected + 1)) := by
  have reached := generator.exists_upcoming_lt face
  obtain ⟨within, below⟩ := Nat.find_spec reached
  have before : ∀ earlier < Nat.find reached,
      threshold face ≤ (generator.upcoming earlier).toNat := by
    intro earlier less
    exact Nat.not_lt.mp fun lower => Nat.find_min reached less ⟨Nat.lt_trans less within, lower⟩
  have rejected := fun earlier less => accept_eq_none_iff.mpr (before earlier less)
  have answered := rollWithin_of_first rejected (accept_eq_some_iff.mpr ⟨below, rfl⟩)
  have rolled := roll_of_rollWithin sided answered
  refine ⟨Nat.find reached, within, before, below, ?_, rolled⟩
  rw [answered, rolled]

/-- Half of all draws are too large for this die. It rejects the first draw of the seed. -/
theorem roll_ends_secondDraw :
    accept 2147483649 (upcoming 0 ⟨12345, 0⟩) = none ∧ (2147483649 : UInt32) ≠ 0 ∧
      ∃ rejected, rejected < UInt32.size ∧
        (∀ earlier < rejected,
          threshold 2147483649 ≤ (upcoming earlier ⟨12345, 0⟩).toNat) ∧
          (upcoming rejected ⟨12345, 0⟩).toNat < threshold 2147483649 ∧
            rollWithin 2147483649 (rejected + 1) ⟨12345, 0⟩ = some (roll 2147483649 ⟨12345, 0⟩) ∧
              roll 2147483649 ⟨12345, 0⟩ =
                (some (upcoming rejected ⟨12345, 0⟩ % 2147483649 + 1),
                  after (rejected + 1) ⟨12345, 0⟩) :=
  ⟨by decide, by decide, roll_ends ⟨12345, 0⟩ (by decide)⟩

end Generator

end DiceChat
