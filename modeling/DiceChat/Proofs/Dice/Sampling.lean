import Mathlib.Algebra.Ring.Int.Defs
import DiceChat.Dice.Evaluation

/-!
This file says what the samples of a die are. The draws below the threshold are accepted, and each
of them is a side of the die. A roll has as many sides as it asks for. So few sides never leave the
range of 64-bit numbers, and their sum is exact.
-/

namespace DiceChat

namespace Generator

/-- Exactly the draws below the threshold are accepted. -/
theorem accept_eq_some_iff {face draw side : UInt32} :
    accept face draw = some side ↔ draw.toNat < threshold face ∧ draw % face + 1 = side := by
  rw [accept]
  split
  · rename_i below
    simp [below]
  · rename_i above
    simp [above]

theorem accept_eq_none_iff {face draw : UInt32} :
    accept face draw = none ↔ threshold face ≤ draw.toNat := by
  simp [accept]

theorem face_positive {face : UInt32} (sided : face ≠ 0) : 0 < face.toNat :=
  Nat.pos_of_ne_zero fun zero => sided (UInt32.toNat_inj.mp zero)

/-- The side of a draw is an exact sum. -/
theorem toNat_side {face : UInt32} (sided : face ≠ 0) (draw : UInt32) :
    (draw % face + 1).toNat = draw.toNat % face.toNat + 1 := by
  have small := Nat.mod_lt draw.toNat (face_positive sided)
  have word := face.toNat_lt
  rw [UInt32.toNat_add, UInt32.toNat_mod, UInt32.toNat_one]
  omega

/-- An accepted draw is a side of the die. -/
theorem accept_range {face draw side : UInt32} (sided : face ≠ 0)
    (accepted : accept face draw = some side) : 1 ≤ side.toNat ∧ side.toNat ≤ face.toNat := by
  obtain ⟨-, rfl⟩ := accept_eq_some_iff.mp accepted
  have small := Nat.mod_lt draw.toNat (face_positive sided)
  rw [toNat_side sided]
  omega

/-- Every sample is a side of the die. -/
theorem sample_range {face : UInt32} (sided : face ≠ 0) (generator : Generator) :
    1 ≤ (generator.sample face).1.toNat ∧ (generator.sample face).1.toNat ≤ face.toNat := by
  fun_induction sample face generator with
  | case1 generator rejected ih => exact ih
  | case2 generator accepted => exact accept_range sided (Option.some_get _).symm

/-- A roll has as many sides as it has dice. -/
theorem length_sampleMany (face : UInt32) (count : Nat) (generator : Generator) :
    (generator.sampleMany face count).1.length = count := by
  induction count generalizing generator with
  | zero => rfl
  | succ count ih => rw [sampleMany, List.length_cons, ih]

theorem sampleMany_range {face : UInt32} (sided : face ≠ 0) (count : Nat) (generator : Generator) :
    ∀ side ∈ (generator.sampleMany face count).1, 1 ≤ side.toNat ∧ side.toNat ≤ face.toNat := by
  induction count generalizing generator with
  | zero => simp [sampleMany]
  | succ count ih =>
      rw [sampleMany]
      exact List.forall_mem_cons.mpr ⟨sample_range sided generator, ih _⟩

end Generator

/-- A side is the same number as a value. -/
theorem toInt_side (side : UInt32) : (Int64.ofNat side.toNat).toInt = side.toNat := by
  have small := side.toNat_lt
  rw [Int64.toInt_ofNat_of_lt (by omega)]

/-- Sides are added up as integers. -/
def sumSides : List UInt32 → Int
  | [] => 0
  | side :: others => side.toNat + sumSides others

theorem sum_toInt_sides (sides : List UInt32) :
    ((sides.map fun side => Int64.ofNat side.toNat).map Int64.toInt).sum = sumSides sides := by
  induction sides with
  | nil => rfl
  | cons side others ih =>
      rw [List.map_cons, List.map_cons, List.sum_cons, toInt_side, ih, sumSides]

/-- The sum as 64-bit numbers is the sum as integers up to the range. -/
theorem foldl_sides (sides : List UInt32) (start : Int64) :
    (sides.map fun side => Int64.ofNat side.toNat).foldl (· + ·) start =
      start + Int64.ofInt (sumSides sides) := by
  induction sides generalizing start with
  | nil => simp [sumSides]
  | cons side others ih =>
      have first : Int64.ofInt side.toNat = Int64.ofNat side.toNat := Int64.ofInt_eq_ofNat
      rw [List.map_cons, List.foldl_cons, ih, sumSides, Int64.ofInt_add, first, Int64.add_assoc]

theorem sumSides_bounds (sides : List UInt32) :
    0 ≤ sumSides sides ∧ sumSides sides ≤ sides.length * 2 ^ 32 := by
  induction sides with
  | nil => simp [sumSides]
  | cons side others ih =>
      have small := side.toNat_lt
      rw [sumSides, List.length_cons]
      omega

/-- The value of a roll with few dice is the exact sum of its sides. -/
theorem toInt_ofSides {sides : List UInt32} (few : sides.length ≤ 64) (counter face : UInt32) :
    (Evaluated.ofSides counter face sides).value.toInt = sumSides sides := by
  obtain ⟨low, high⟩ := sumSides_bounds sides
  rw [Evaluated.ofSides, Evaluated.value, foldl_sides, Int64.zero_add,
    Int64.toInt_ofInt_of_le (by omega) (by omega)]

end DiceChat
