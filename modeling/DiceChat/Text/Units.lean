import DiceChat.Text.Measure

/-!
This file counts text in UTF-16 code units, the unit of every entity range, and in UTF-8 bytes,
the unit of every position in a scan.
-/

namespace DiceChat.Text

/-- A character takes one code unit in the basic plane and a surrogate pair above it. -/
def unitSize (character : Char) : Nat :=
  if character.toNat < 0x10000 then 1 else 2

/-- This is the length of a text in UTF-16 code units. -/
def units (text : List Char) : Nat := measure unitSize text

/-- This is the length of a text in UTF-8 bytes. -/
def bytes (text : List Char) : Nat := measure Char.utf8Size text

/-- The cut fails past the end and between the halves of a surrogate pair. -/
def cutUnits (text : List Char) (count : Nat) : Option (List Char × List Char) :=
  cut unitSize text count

/-- The cut fails past the end and inside a character. -/
def cutBytes (text : List Char) (count : Nat) : Option (List Char × List Char) :=
  cut Char.utf8Size text count

theorem unitSize_positive (character : Char) : 0 < unitSize character := by
  unfold unitSize
  split <;> decide

@[simp] theorem units_nil : units [] = 0 := rfl

@[simp] theorem units_cons (character : Char) (rest : List Char) :
    units (character :: rest) = unitSize character + units rest := rfl

@[simp] theorem units_append (first second : List Char) :
    units (first ++ second) = units first + units second :=
  measure_append unitSize first second

@[simp] theorem bytes_nil : bytes [] = 0 := rfl

@[simp] theorem bytes_cons (character : Char) (rest : List Char) :
    bytes (character :: rest) = character.utf8Size + bytes rest := rfl

@[simp] theorem bytes_append (first second : List Char) :
    bytes (first ++ second) = bytes first + bytes second :=
  measure_append Char.utf8Size first second

/-- A character never takes more code units than bytes. -/
theorem unitSize_le_utf8Size (character : Char) : unitSize character ≤ character.utf8Size := by
  have positive := Char.utf8Size_pos character
  unfold unitSize
  split
  · exact positive
  · rename_i large
    have long : character.utf8Size ≠ 1 := by
      intro single
      have small := UInt32.le_iff_toNat_le.mp (Char.utf8Size_eq_one_iff.mp single)
      change character.toNat ≤ 127 at small
      omega
    omega

/-- A text never has more code units than bytes. -/
theorem units_le_bytes (text : List Char) : units text ≤ bytes text := by
  induction text with
  | nil => exact Nat.le_refl 0
  | cons character rest ih =>
      rw [units_cons, bytes_cons]
      exact Nat.add_le_add (unitSize_le_utf8Size character) ih

/-- The bytes of a string are the bytes of its characters. -/
theorem bytes_toList (text : String) : bytes text.toList = text.utf8ByteSize := by
  induction text using String.push_induction with
  | empty => simp
  | push text character ih => simp [ih]

/-- The unit cut splits the text at the given number of code units. -/
theorem cutUnits_eq_some (text front back : List Char) (count : Nat) :
    cutUnits text count = some (front, back) ↔ text = front ++ back ∧ units front = count :=
  cut_eq_some unitSize_positive text front back count

/-- The byte cut splits the text at the given number of bytes. -/
theorem cutBytes_eq_some (text front back : List Char) (count : Nat) :
    cutBytes text count = some (front, back) ↔ text = front ++ back ∧ bytes front = count :=
  cut_eq_some Char.utf8Size_pos text front back count

end DiceChat.Text
