/-!
This file measures and cuts texts by a size per character. A cut succeeds only between two
characters, so it never splits one.
-/

namespace DiceChat.Text

/-- A text is as large as its characters together. -/
def measure (size : Char → Nat) : List Char → Nat
  | [] => 0
  | character :: rest => size character + measure size rest

/-- The cut takes characters of the given total size off the front of a text. -/
def cut (size : Char → Nat) : List Char → Nat → Option (List Char × List Char)
  | text, 0 => some ([], text)
  | [], _ + 1 => none
  | character :: rest, count + 1 =>
      if size character ≤ count + 1 then
        (cut size rest (count + 1 - size character)).map
          fun parts => (character :: parts.1, parts.2)
      else none

@[simp] theorem measure_nil (size : Char → Nat) : measure size [] = 0 := rfl

@[simp] theorem measure_cons (size : Char → Nat) (character : Char) (rest : List Char) :
    measure size (character :: rest) = size character + measure size rest := rfl

@[simp] theorem measure_append (size : Char → Nat) (first second : List Char) :
    measure size (first ++ second) = measure size first + measure size second := by
  induction first with
  | nil => simp
  | cons character rest ih => simp [ih, Nat.add_assoc]

/-- A measure with positive sizes is zero only on the empty text. -/
theorem measure_eq_zero {size : Char → Nat} (positive : ∀ character, 0 < size character)
    (text : List Char) : measure size text = 0 ↔ text = [] := by
  cases text with
  | nil => simp
  | cons character rest =>
      have := positive character
      simp only [measure_cons, reduceCtorEq, iff_false]
      omega

@[simp] theorem cut_zero (size : Char → Nat) (text : List Char) :
    cut size text 0 = some ([], text) := by
  cases text <;> rfl

/-- A cut splits the text at the one place where the front has the given size. -/
theorem cut_eq_some {size : Char → Nat} (positive : ∀ character, 0 < size character)
    (text front back : List Char) (count : Nat) :
    cut size text count = some (front, back) ↔
      text = front ++ back ∧ measure size front = count := by
  induction text generalizing front back count with
  | nil =>
      cases count with
      | zero => cases front <;> simp [cut]
      | succ count =>
          cases front <;> simp [cut]
  | cons character rest ih =>
      cases count with
      | zero =>
          rw [cut_zero, measure_eq_zero positive]
          constructor
          · rintro ⟨⟩
            simp
          · rintro ⟨whole, rfl⟩
            simp [whole]
      | succ count =>
          have sized := positive character
          cases front with
          | nil => simp [cut]
          | cons head tail =>
              rw [cut]
              split
              · rename_i fits
                simp only [Option.map_eq_some_iff, Prod.exists, ih, Prod.mk.injEq,
                  List.cons.injEq, List.cons_append, measure_cons]
                constructor
                · rintro ⟨_, _, ⟨rfl, sum⟩, ⟨rfl, rfl⟩, rfl⟩
                  exact ⟨⟨rfl, rfl⟩, by omega⟩
                · rintro ⟨⟨rfl, rfl⟩, sum⟩
                  exact ⟨tail, back, ⟨rfl, by omega⟩, ⟨rfl, rfl⟩, rfl⟩
              · rename_i large
                simp only [List.cons_append, List.cons.injEq, measure_cons, reduceCtorEq,
                  false_iff, not_and, and_imp]
                rintro rfl rfl
                omega

end DiceChat.Text
