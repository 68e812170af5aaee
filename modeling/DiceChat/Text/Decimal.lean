/-!
This file writes integers in decimal and reads runs of decimal digits.
-/

namespace DiceChat.Text

/-- A natural number has no leading zero in decimal. -/
def natural (value : Nat) : List Char := Nat.toDigits 10 value

/-- A negative integer starts with a minus sign. -/
def integer (value : Int) : List Char :=
  if value < 0 then '-' :: natural value.natAbs else natural value.natAbs

/-- A run of digits may have leading zeros, and the empty run is zero. -/
def digitsValue (digits : List Char) : Nat := Nat.ofDigitChars 10 digits 0

/-- This reads the longest run of digits up to a given length. -/
def takeDigits : Nat → List Char → List Char × List Char
  | 0, input => ([], input)
  | _ + 1, [] => ([], [])
  | limit + 1, character :: rest =>
      if character.isDigit then
        let later := takeDigits limit rest
        (character :: later.1, later.2)
      else ([], character :: rest)

@[simp] theorem digitsValue_natural (value : Nat) : digitsValue (natural value) = value :=
  Nat.ofDigitChars_toDigits (by decide) (by decide)

/-- Every character of a natural number is a digit. -/
theorem isDigit_of_mem_natural {value : Nat} {character : Char}
    (member : character ∈ natural value) : character.isDigit = true :=
  Nat.isDigit_of_mem_toDigits (by decide) (by decide) member

/-- The digits and the rest make up the input. -/
theorem takeDigits_append (limit : Nat) (input : List Char) :
    (takeDigits limit input).1 ++ (takeDigits limit input).2 = input := by
  induction limit generalizing input with
  | zero => simp [takeDigits]
  | succ limit ih =>
      cases input with
      | nil => simp [takeDigits]
      | cons character rest =>
          rw [takeDigits]
          split <;> simp [ih]

/-- The run holds digits only. -/
theorem isDigit_of_mem_takeDigits {limit : Nat} {input : List Char} {character : Char}
    (member : character ∈ (takeDigits limit input).1) : character.isDigit = true := by
  induction limit generalizing input with
  | zero => simp [takeDigits] at member
  | succ limit ih =>
      cases input with
      | nil => simp [takeDigits] at member
      | cons head rest =>
          rw [takeDigits] at member
          split at member
          · rcases List.mem_cons.mp member with rfl | later
            · assumption
            · exact ih later
          · simp at member

/-- The run never exceeds its limit. -/
theorem takeDigits_length (limit : Nat) (input : List Char) :
    (takeDigits limit input).1.length ≤ limit := by
  induction limit generalizing input with
  | zero => simp [takeDigits]
  | succ limit ih =>
      cases input with
      | nil => simp [takeDigits]
      | cons character rest =>
          rw [takeDigits]
          split <;> simp [ih]

end DiceChat.Text
