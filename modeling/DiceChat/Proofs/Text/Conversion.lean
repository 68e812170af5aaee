import Mathlib.Algebra.Group.Nat.Defs
import DiceChat.Text.Conversion

/-!
This file shows that the conversions of decimal texts are exact, and that a run of digits that is
short enough for its width is never rejected.
-/

namespace DiceChat.Text

/-- The digits that follow never make a value smaller. -/
theorem le_ofDigitChars (digits : List Char) (value : Nat) :
    value ≤ Nat.ofDigitChars 10 digits value := by
  rw [Nat.ofDigitChars_eq_ofDigitChars_zero]
  have positive : 0 < 10 ^ digits.length := Nat.pow_pos (by decide)
  have atLeast := Nat.le_mul_of_pos_left value positive
  omega

/-- A digit is pushed exactly if the value that it gives still fits. -/
theorem pushDigit_eq_some_iff {most value pushed : Nat} {character : Char} :
    pushDigit most value character = some pushed ↔
      character.isDigit = true ∧ pushed ≤ most ∧
        10 * value + (character.toNat - '0'.toNat) = pushed := by
  unfold pushDigit
  split
  · rename_i digit
    dsimp only
    split
    · rename_i fits
      rw [Option.some.injEq]
      exact ⟨fun same => ⟨digit, same ▸ fits, same⟩, fun found => found.2.2⟩
    · rename_i exceeds
      exact ⟨nofun, fun found => absurd (found.2.2 ▸ found.2.1) exceeds⟩
  · rename_i other
    exact ⟨nofun, fun found => absurd found.1 other⟩

/-- Digits are pushed one after the other exactly if the value of all of them fits. No value on the
way is larger than the last one. -/
theorem foldlM_pushDigit_eq_some_iff {most start value : Nat} {digits : List Char}
    (fits : start ≤ most) :
    digits.foldlM (pushDigit most) start = some value ↔
      (∀ character ∈ digits, character.isDigit = true) ∧ value ≤ most ∧
        Nat.ofDigitChars 10 digits start = value := by
  induction digits generalizing start with
  | nil =>
      rw [List.foldlM_nil, Nat.ofDigitChars_nil]
      constructor
      · intro same
        obtain rfl := Option.some.inj same
        exact ⟨nofun, fits, rfl⟩
      · rintro ⟨-, -, rfl⟩
        rfl
  | cons character rest ih =>
      rw [List.foldlM_cons, Option.bind_eq_bind, Option.bind_eq_some_iff, Nat.ofDigitChars_cons,
        List.forall_mem_cons]
      constructor
      · rintro ⟨pushed, isPushed, others⟩
        obtain ⟨digit, small, rfl⟩ := pushDigit_eq_some_iff.mp isPushed
        obtain ⟨digits, within, same⟩ := (ih small).mp others
        exact ⟨⟨digit, digits⟩, within, same⟩
      · rintro ⟨⟨digit, digits⟩, within, same⟩
        have small := Nat.le_trans (le_ofDigitChars rest _) (same ▸ within)
        exact ⟨_, pushDigit_eq_some_iff.mpr ⟨digit, small, rfl⟩,
          (ih small).mpr ⟨digits, within, same⟩⟩

/-- A conversion gives a value exactly if there are digits only, at least one of them, and their
value fits. -/
theorem convertDigits_eq_some_iff {most value : Nat} {digits : List Char} :
    convertDigits most digits = some value ↔
      digits ≠ [] ∧ (∀ character ∈ digits, character.isDigit = true) ∧ value ≤ most ∧
        digitsValue digits = value := by
  cases digits with
  | nil => exact ⟨nofun, fun found => absurd rfl found.1⟩
  | cons first others =>
      rw [convertDigits, List.isEmpty_cons, if_neg Bool.false_ne_true,
        foldlM_pushDigit_eq_some_iff (Nat.zero_le most), digitsValue]
      exact ⟨fun found => ⟨List.cons_ne_nil _ _, found⟩, fun found => found.2⟩

/-- A group of digits has at least one digit and at most a given number of them. -/
structure DigitGroup (limit : Nat) (digits : List Char) : Prop where
  filled : digits ≠ []
  digit : ∀ character ∈ digits, character.isDigit = true
  short : digits.length ≤ limit

/-- A run of digits is below the power of ten of its length. -/
theorem digitsValue_lt {digits : List Char}
    (digit : ∀ character ∈ digits, character.isDigit = true) :
    digitsValue digits < 10 ^ digits.length := by
  induction digits with
  | nil => decide
  | cons first others ih =>
      obtain ⟨isDigit, areDigits⟩ := List.forall_mem_cons.mp digit
      have later := ih areDigits
      have small : first.toNat - '0'.toNat ≤ 9 := by
        have range := (Char.isDigit_iff_toNat.mp isDigit).2
        exact Nat.sub_le_of_le_add range
      have most := Nat.mul_le_mul_left (10 ^ others.length) small
      rw [digitsValue] at later ⊢
      rw [Nat.ofDigitChars_cons, Nat.ofDigitChars_eq_ofDigitChars_zero, List.length_cons,
        Nat.pow_succ, Nat.mul_zero, Nat.zero_add]
      omega

namespace DigitGroup

variable {limit most : Nat} {digits : List Char}

/-- What is taken of a text is a group, unless no digit stands at its front. -/
theorem of_takeDigits {input : List Char} (filled : (takeDigits limit input).1 ≠ []) :
    DigitGroup limit (takeDigits limit input).1 :=
  ⟨filled, fun _ => isDigit_of_mem_takeDigits, takeDigits_length limit input⟩

/-- Leading zeros count as digits, so the limit bounds the value in any case. -/
theorem value_lt (group : DigitGroup limit digits) (short : limit ≤ most) :
    digitsValue digits < 10 ^ most :=
  Nat.lt_of_lt_of_le (digitsValue_lt group.digit)
    (Nat.pow_le_pow_right (by decide) (Nat.le_trans group.short short))

/-- A group is converted if its value fits. -/
theorem convertDigits_eq (group : DigitGroup limit digits) (fits : digitsValue digits ≤ most) :
    convertDigits most digits = some (digitsValue digits) :=
  convertDigits_eq_some_iff.mpr ⟨group.filled, group.digit, fits, rfl⟩

/-- No sign stands before the digits of a group. -/
theorem unsigned (group : DigitGroup limit digits) (rest : List Char) :
    digits ≠ '+' :: rest ∧ digits ≠ '-' :: rest := by
  constructor
  · rintro rfl
    exact absurd (group.digit '+' List.mem_cons_self) (by decide)
  · rintro rfl
    exact absurd (group.digit '-' List.mem_cons_self) (by decide)

/-- Nine digits always fit in 32 bits. -/
theorem convertUInt32_eq (group : DigitGroup limit digits) (short : limit ≤ 9) :
    convertUInt32 digits = some (UInt32.ofNat (digitsValue digits)) := by
  have small := group.value_lt short
  unfold convertUInt32
  split
  · exact absurd rfl (group.unsigned _).1
  · rw [group.convertDigits_eq (by omega), Option.map_some]

/-- Nine digits keep their value in 32 bits. -/
theorem toNat_ofNat (group : DigitGroup limit digits) (short : limit ≤ 9) :
    (UInt32.ofNat (digitsValue digits)).toNat = digitsValue digits :=
  UInt32.toNat_ofNat_of_lt' (Nat.lt_trans (group.value_lt short) (by decide))

/-- Eighteen digits always fit in 64 bits with a sign. -/
theorem convertInt64_eq (group : DigitGroup limit digits) (short : limit ≤ 18) :
    convertInt64 digits = some (Int64.ofNat (digitsValue digits)) := by
  have small := group.value_lt short
  unfold convertInt64
  split
  · exact absurd rfl (group.unsigned _).1
  · exact absurd rfl (group.unsigned _).2
  · rw [group.convertDigits_eq (by omega), Option.map_some]

/-- Eighteen digits keep their value in 64 bits with a sign. -/
theorem toInt_ofNat (group : DigitGroup limit digits) (short : limit ≤ 18) :
    (Int64.ofNat (digitsValue digits)).toInt = digitsValue digits :=
  Int64.toInt_ofNat_of_lt (Nat.lt_trans (group.value_lt short) (by decide))

end DigitGroup

-- Ten digits can be too many for 32 bits, and nineteen for 64 bits.
example : convertUInt32 "4294967296".toList = none ∧
    convertInt64 "9223372036854775808".toList = none := by decide

end DiceChat.Text
