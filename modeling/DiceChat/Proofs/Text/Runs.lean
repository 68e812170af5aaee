import Mathlib.Data.List.TakeWhile
import DiceChat.Text.Space

/-!
This file holds the law of longest runs: a run of a class ends where the class stops.
-/

namespace DiceChat.Text

/-- A class stops before a text that does not continue it. -/
def Stops (accepts : Char → Bool) (text : List Char) : Prop :=
  ∀ character, text.head? = some character → accepts character = false

/-- The longest run is the front that the class accepts up to where it stops. -/
theorem takeWhile_of_stops {accepts : Char → Bool} {front rest : List Char}
    (inside : ∀ character ∈ front, accepts character = true) (stops : Stops accepts rest) :
    (front ++ rest).takeWhile accepts = front := by
  rw [List.takeWhile_append_of_pos inside]
  cases rest with
  | nil => simp
  | cons character others => simp [stops character rfl]

/-- The longest run leaves what the class stops before. -/
theorem dropWhile_of_stops {accepts : Char → Bool} {front rest : List Char}
    (inside : ∀ character ∈ front, accepts character = true) (stops : Stops accepts rest) :
    (front ++ rest).dropWhile accepts = rest := by
  rw [List.dropWhile_append_of_pos inside]
  cases rest with
  | nil => rfl
  | cons character others => simp [stops character rfl]

/-- A class stops after its longest run. -/
theorem stops_dropWhile (accepts : Char → Bool) (text : List Char) :
    Stops accepts (text.dropWhile accepts) := by
  intro character head
  induction text with
  | nil => exact absurd head (by simp)
  | cons first others ih =>
      by_cases accepted : accepts first = true
      · rw [List.dropWhile_cons_of_pos accepted] at head
        exact ih head
      · rw [List.dropWhile_cons_of_neg accepted, List.head?_cons] at head
        obtain rfl := Option.some.inj head
        simpa using accepted

/-- Letters and digits are visible ASCII characters. -/
theorem visible_of_isAlphanum {character : Char} (word : character.isAlphanum = true) :
    0x20 < character.toNat ∧ character.toNat < 0x80 := by
  delta Char.isAlphanum Char.isAlpha Char.isUpper Char.isLower Char.isDigit at word
  simp only [Bool.or_eq_true, Bool.and_eq_true, decide_eq_true_eq, ge_iff_le,
    UInt32.le_iff_toNat_le] at word
  change ((65 ≤ character.toNat ∧ character.toNat ≤ 90) ∨
    (97 ≤ character.toNat ∧ character.toNat ≤ 122)) ∨
    (48 ≤ character.toNat ∧ character.toNat ≤ 57) at word
  omega

/-- A visible ASCII character is not White_Space. -/
theorem isWhiteSpace_of_visible {character : Char}
    (visible : 0x20 < character.toNat ∧ character.toNat < 0x80) :
    isWhiteSpace character = false := by
  unfold isWhiteSpace
  simp only [Bool.or_eq_false_iff, Bool.and_eq_false_iff, decide_eq_false_iff_not]
  omega

/-- No letter and no digit is space. -/
theorem isAlphanum_of_isChatSpace {character : Char} (space : isChatSpace character = true) :
    character.isAlphanum = false := by
  by_contra word
  have visible := visible_of_isAlphanum (Bool.not_eq_false _ ▸ word)
  have notMark : (character == '\uFEFF') = false := by
    rw [beq_eq_false_iff_ne]
    rintro rfl
    exact absurd visible.2 (by decide)
  rw [isChatSpace, isWhiteSpace_of_visible visible, notMark] at space
  exact absurd space (by simp)

/-- No digit is space. -/
theorem isDigit_of_isChatSpace {character : Char} (space : isChatSpace character = true) :
    character.isDigit = false :=
  (Bool.or_eq_false_iff.mp (isAlphanum_of_isChatSpace space)).2

/-- No letter is space. -/
theorem isAlpha_of_isChatSpace {character : Char} (space : isChatSpace character = true) :
    character.isAlpha = false :=
  (Bool.or_eq_false_iff.mp (isAlphanum_of_isChatSpace space)).1

end DiceChat.Text
