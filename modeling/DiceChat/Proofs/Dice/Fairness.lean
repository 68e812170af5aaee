import Mathlib.SetTheory.Cardinal.Finite
import DiceChat.Proofs.Dice.Sampling

/-!
This file says that dice are fair. The draws below the threshold are whole rounds through the faces,
so every side has one draw in each round. The draws above it are less than one round, and they are
fewer than half of all draws.
-/

namespace DiceChat

namespace Generator

/-- This is the threshold in the arithmetic of 64-bit words. -/
def wordThreshold (face : UInt32) : UInt64 :=
  ((1 : UInt64) <<< 32) / (max face 1).toUInt64 * (max face 1).toUInt64

/-- A die is fair if its sides have equally many draws. Nothing but a side comes from a draw, in
32-bit words as in the natural numbers, and the draws from the threshold on are rejected, which are
fewer than half of all draws. -/
structure Fair (face : UInt32) : Prop where
  even : ∀ side, 1 ≤ side → side ≤ face →
    Nat.card {draw // accept face draw = some side} = UInt32.size / face.toNat
  inside : ∀ draw side, accept face draw = some side → 1 ≤ side ∧ side ≤ face
  fits : ∀ draw : UInt32, draw.toNat % face.toNat + 1 < UInt32.size
  words : (wordThreshold face).toNat = threshold face
  rejected : ∀ draw, accept face draw = none ↔ threshold face ≤ draw.toNat
  few : Nat.card {draw // accept face draw = none} < 2 ^ 31

theorem threshold_of_ne_zero {face : UInt32} (sided : face ≠ 0) :
    threshold face = face.toNat * (UInt32.size / face.toNat) := by
  rw [threshold, Nat.max_eq_left (face_positive sided), Nat.mul_comm]

/-- All draws are whole rounds through the faces and a part of one more. -/
theorem threshold_add_mod {face : UInt32} (sided : face ≠ 0) :
    threshold face + UInt32.size % face.toNat = UInt32.size := by
  rw [threshold_of_ne_zero sided, Nat.div_add_mod]

theorem toNat_max_one (face : UInt32) : (max face 1).toNat = max face.toNat 1 := by
  change (if face ≤ 1 then 1 else face).toNat = _
  split
  · rename_i least
    have small := UInt32.le_iff_toNat_le.mp least
    rw [UInt32.toNat_one] at small ⊢
    omega
  · rename_i above
    have large := UInt32.lt_iff_toNat_lt.mp (UInt32.not_le.mp above)
    rw [UInt32.toNat_one] at large
    omega

/-- The product of 64-bit words never leaves their range. -/
theorem toNat_wordThreshold (face : UInt32) : (wordThreshold face).toNat = threshold face := by
  have product := Nat.div_mul_le_self UInt32.size (max face.toNat 1)
  rw [wordThreshold, UInt64.toNat_mul, UInt64.toNat_div, UInt32.toNat_toUInt64, toNat_max_one,
    threshold]
  change (UInt32.size / max face.toNat 1 * max face.toNat 1) % 2 ^ 64 = _
  apply Nat.mod_eq_of_lt
  rw [UInt32.size] at product ⊢
  omega

/-- A side has one draw in each round. -/
theorem accept_eq_some_iff_round {face side draw : UInt32} (least : 1 ≤ side) (most : side ≤ face) :
    accept face draw = some side ↔ ∃ round, round < UInt32.size / face.toNat ∧
      draw.toNat = face.toNat * round + (side.toNat - 1) := by
  have one : 1 ≤ side.toNat := UInt32.le_iff_toNat_le.mp least
  have within : side.toNat ≤ face.toNat := UInt32.le_iff_toNat_le.mp most
  have sided : face ≠ 0 := by
    rintro rfl
    exact absurd (one.trans within) (by decide)
  rw [accept_eq_some_iff, threshold_of_ne_zero sided, ← UInt32.toNat_inj, toNat_side sided]
  constructor
  · rintro ⟨below, isSide⟩
    refine ⟨draw.toNat / face.toNat, Nat.div_lt_of_lt_mul below, ?_⟩
    have parts := Nat.div_add_mod draw.toNat face.toNat
    omega
  · rintro ⟨round, before, isDraw⟩
    have less : side.toNat - 1 < face.toNat := by omega
    refine ⟨?_, ?_⟩
    · calc
        draw.toNat < face.toNat * (round + 1) := by rw [isDraw, Nat.mul_succ]; omega
        _ ≤ face.toNat * (UInt32.size / face.toNat) := Nat.mul_le_mul_left _ before
    · rw [isDraw, Nat.mul_add_mod, Nat.mod_eq_of_lt less]
      omega

/-- Draws are counted by numbering them. -/
theorem card_draws {count : Nat} {Chosen : UInt32 → Prop} (number : Fin count → Nat)
    (separate : Function.Injective number) (words : ∀ index, number index < UInt32.size)
    (numbered : ∀ draw, Chosen draw ↔ ∃ index, draw.toNat = number index) :
    Nat.card {draw // Chosen draw} = count := by
  have exact (index : Fin count) : (UInt32.ofNat (number index)).toNat = number index :=
    UInt32.toNat_ofNat_of_lt' (words index)
  let choose (index : Fin count) : {draw // Chosen draw} :=
    ⟨UInt32.ofNat (number index), (numbered _).mpr ⟨index, exact index⟩⟩
  have bijective : Function.Bijective choose := by
    constructor
    · intro first second same
      have sameWord := congrArg UInt32.toNat (congrArg Subtype.val same)
      apply separate
      rwa [exact, exact] at sameWord
    · rintro ⟨draw, chosen⟩
      obtain ⟨index, isNumber⟩ := (numbered draw).mp chosen
      refine ⟨index, Subtype.ext (UInt32.toNat_inj.mp ?_)⟩
      rw [exact, isNumber]
  rw [← Nat.card_eq_of_bijective choose bijective, Nat.card_fin]

/-- A side has as many draws as there are rounds. -/
theorem card_accepted {face side : UInt32} (least : 1 ≤ side) (most : side ≤ face) :
    Nat.card {draw // accept face draw = some side} = UInt32.size / face.toNat := by
  have one : 1 ≤ side.toNat := UInt32.le_iff_toNat_le.mp least
  have within : side.toNat ≤ face.toNat := UInt32.le_iff_toNat_le.mp most
  apply card_draws fun round => face.toNat * round.val + (side.toNat - 1)
  · intro first second same
    have product : face.toNat * first.val = face.toNat * second.val := Nat.add_right_cancel same
    exact Fin.ext (Nat.eq_of_mul_eq_mul_left (by omega) product)
  · intro round
    calc
      face.toNat * round.val + (side.toNat - 1) < face.toNat * (round.val + 1) := by
        rw [Nat.mul_succ]
        omega
      _ ≤ face.toNat * (UInt32.size / face.toNat) := Nat.mul_le_mul_left _ round.isLt
      _ ≤ UInt32.size := Nat.mul_div_le _ _
  · intro draw
    rw [accept_eq_some_iff_round least most, Fin.exists_iff]
    simp only [exists_prop]

/-- The rejected draws are the part of one more round. -/
theorem card_rejected {face : UInt32} (sided : face ≠ 0) :
    Nat.card {draw // accept face draw = none} = UInt32.size % face.toNat := by
  have total := threshold_add_mod sided
  apply card_draws fun index => threshold face + index.val
  · intro first second same
    exact Fin.ext (Nat.add_left_cancel same)
  · intro index
    have less := index.isLt
    omega
  · intro draw
    have word := draw.toNat_lt_size
    rw [accept_eq_none_iff]
    constructor
    · intro above
      exact ⟨⟨draw.toNat - threshold face, by omega⟩, (Nat.add_sub_of_le above).symm⟩
    · rintro ⟨index, isDraw⟩
      omega

/-- There is at least one whole round, and what is left is less than a round. -/
theorem size_mod_lt {face : UInt32} (sided : face ≠ 0) : UInt32.size % face.toNat < 2 ^ 31 := by
  have positive := face_positive sided
  have less := Nat.mod_lt UInt32.size positive
  have rounds : 0 < UInt32.size / face.toNat :=
    Nat.div_pos (Nat.le_of_lt face.toNat_lt_size) positive
  have round := Nat.le_mul_of_pos_right face.toNat rounds
  have total := Nat.div_add_mod UInt32.size face.toNat
  have size : UInt32.size = 2 * 2 ^ 31 := rfl
  omega

/-- Every die with a face is fair. -/
theorem fair_of_ne_zero {face : UInt32} (sided : face ≠ 0) : Fair face where
  even side least most := card_accepted least most
  inside draw side accepted := by
    obtain ⟨low, high⟩ := accept_range sided accepted
    exact ⟨UInt32.le_iff_toNat_le.mpr low, UInt32.le_iff_toNat_le.mpr high⟩
  fits draw := by
    rw [← toNat_side sided]
    exact UInt32.toNat_lt_size _
  words := toNat_wordThreshold face
  rejected _ := accept_eq_none_iff
  few := by
    rw [card_rejected sided]
    exact size_mod_lt sided

/-- A die with 20 faces and the largest die are fair. The largest one rejects a single draw. -/
theorem fair_of_ne_zero_largest :
    (20 : UInt32) ≠ 0 ∧ Fair 20 ∧ (4294967295 : UInt32) ≠ 0 ∧ Fair 4294967295 ∧
      accept 4294967295 4294967295 = none :=
  ⟨by decide, fair_of_ne_zero (by decide), by decide, fair_of_ne_zero (by decide), by decide⟩

end Generator

end DiceChat
