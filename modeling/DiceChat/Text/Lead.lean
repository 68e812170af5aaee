/-!
This file compares the front of a text with expected characters and looks for them inside it.
-/

namespace DiceChat.Text

/-- This takes the expected characters off the front of a text. -/
def expect : List Char → List Char → Option (List Char)
  | [], text => some text
  | _ :: _, [] => none
  | wanted :: expected, character :: rest =>
      if character = wanted then expect expected rest else none

/-- This tells whether the expected characters stand anywhere in a text. -/
def contains (expected : List Char) : List Char → Bool
  | [] => (expect expected []).isSome
  | character :: rest =>
      (expect expected (character :: rest)).isSome || contains expected rest

/-- This is the front of a text before a later part of it. -/
def before (text later : List Char) : List Char :=
  text.take (text.length - later.length)

/-- The expected characters are the front of the text. -/
theorem expect_eq_some {expected text rest : List Char} :
    expect expected text = some rest ↔ text = expected ++ rest := by
  induction expected generalizing text with
  | nil => simp [expect]
  | cons wanted expected ih =>
      cases text with
      | nil => simp [expect]
      | cons character others =>
          rw [expect]
          split
          · rename_i same
            simp [ih, same]
          · rename_i different
            simp [different]

/-- The expected characters stand in a text between two of its parts. -/
theorem contains_eq_true {expected text : List Char} :
    contains expected text = true ↔ ∃ front back, text = front ++ expected ++ back := by
  induction text with
  | nil =>
      rw [contains, Option.isSome_iff_exists]
      simp only [expect_eq_some]
      constructor
      · rintro ⟨rest, whole⟩
        exact ⟨[], rest, by simpa using whole⟩
      · rintro ⟨front, back, whole⟩
        simp_all
  | cons character rest ih =>
      rw [contains, Bool.or_eq_true, Option.isSome_iff_exists, ih]
      simp only [expect_eq_some]
      constructor
      · rintro (⟨back, whole⟩ | ⟨front, back, whole⟩)
        · exact ⟨[], back, by simpa using whole⟩
        · exact ⟨character :: front, back, by simp [whole]⟩
      · rintro ⟨front, back, whole⟩
        cases front with
        | nil => exact .inl ⟨back, by simpa using whole⟩
        | cons head tail =>
            simp only [List.cons_append, List.cons.injEq] at whole
            exact .inr ⟨tail, back, whole.2⟩

@[simp] theorem before_append (front later : List Char) :
    before (front ++ later) later = front := by
  simp [before]

/-- The front and the later part make up the text. -/
theorem before_append_of_suffix {text later : List Char} (suffix : later <:+ text) :
    before text later ++ later = text := by
  obtain ⟨front, rfl⟩ := suffix
  rw [before_append]

end DiceChat.Text
