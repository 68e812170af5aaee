import DiceChat.Markup.Plain
import DiceChat.Proofs.Text.Runs

/-!
This file says exactly which front of a text a plain step takes. A step is a run of digits, a lone
space, or a first character with the rest of its word and the space after it.
-/

namespace DiceChat.Markup

open Text

/-- This tells which front and rest of a text a plain step makes. -/
inductive PlainStep : List Char → List Char → Prop where
  | digits {first : Char} {others rest : List Char}
      (digit : ∀ character ∈ first :: others, character.isDigit = true)
      (ends : Stops Char.isDigit rest) : PlainStep (first :: others) rest
  | lone {space next : Char} {rest : List Char} (blank : isChatSpace space = true)
      (solid : isChatSpace next = false) : PlainStep [space] (next :: rest)
  | word {first : Char} {word spaces rest : List Char} (notDigit : first.isDigit = false)
      (notLone : isLoneSpace first (word ++ (spaces ++ rest)) = false)
      (inWord : ∀ character ∈ word, continuesWord character = true)
      (blank : ∀ character ∈ spaces, isChatSpace character = true)
      (wordEnds : Stops continuesWord (spaces ++ rest)) (spaceEnds : Stops isChatSpace rest) :
      PlainStep (first :: (word ++ spaces)) rest

/-- A character that continues a word is no digit, no opener and no space. -/
theorem continuesWord_iff (character : Char) : continuesWord character = true ↔
    character.isDigit = false ∧ isOpener character = false ∧ isChatSpace character = false := by
  simp [continuesWord, and_assoc]

/-- A step takes at least one character. -/
theorem PlainStep.ne_nil {step rest : List Char} (isStep : PlainStep step rest) : step ≠ [] := by
  cases isStep with
  | digits => exact List.cons_ne_nil _ _
  | lone => exact List.cons_ne_nil _ _
  | word => exact List.cons_ne_nil _ _

/-- The plain step is the one step there is. -/
theorem plain_eq_some_iff (input step rest : List Char) :
    plain input = some (step, rest) ↔ input = step ++ rest ∧ PlainStep step rest := by
  constructor
  · intro found
    cases input with
    | nil => exact absurd found (by simp [plain])
    | cons first later =>
        have taken := Option.some.inj found
        split at taken
        · rename_i digit
          obtain ⟨rfl, rfl⟩ := Prod.mk.injEq .. ▸ taken
          refine ⟨by simp, .digits ?_ (stops_dropWhile _ later)⟩
          exact List.forall_mem_cons.mpr ⟨digit, fun _ => List.mem_takeWhile_imp⟩
        · rename_i notDigit
          split at taken
          · rename_i lone
            obtain ⟨rfl, rfl⟩ := Prod.mk.injEq .. ▸ taken
            obtain ⟨blank, before⟩ := Bool.and_eq_true_iff.mp lone
            cases later with
            | nil => exact absurd before (by simp)
            | cons next others => exact ⟨rfl, .lone blank (by simpa using before)⟩
          · rename_i notLone
            obtain ⟨rfl, rfl⟩ := Prod.mk.injEq .. ▸ taken
            have split : later = later.takeWhile continuesWord ++
                ((later.dropWhile continuesWord).takeWhile isChatSpace ++
                  (later.dropWhile continuesWord).dropWhile isChatSpace) := by simp
            refine ⟨by simp, .word (by simpa using notDigit) ?_ (fun _ => List.mem_takeWhile_imp)
              (fun _ => List.mem_takeWhile_imp) ?_ (stops_dropWhile _ _)⟩
            · rw [← split]
              simpa using notLone
            · rw [List.takeWhile_append_dropWhile]
              exact stops_dropWhile _ later
  · intro ⟨whole, isStep⟩
    subst whole
    cases isStep with
    | digits digit ends =>
        obtain ⟨firstDigit, othersDigit⟩ := List.forall_mem_cons.mp digit
        rw [List.cons_append, plain, if_pos firstDigit, takeWhile_of_stops othersDigit ends,
          dropWhile_of_stops othersDigit ends]
    | lone blank solid =>
        have notDigit := isDigit_of_isChatSpace blank
        simp [plain, notDigit, isLoneSpace, blank, solid]
    | word notDigit notLone inWord blank wordEnds spaceEnds =>
        rw [List.cons_append, List.append_assoc, plain, if_neg (by simp [notDigit]),
          if_neg (by simp [notLone]), wordStep, takeWhile_of_stops inWord wordEnds,
          dropWhile_of_stops inWord wordEnds, takeWhile_of_stops blank spaceEnds,
          dropWhile_of_stops blank spaceEnds]
        rfl

/-- Every text that is not empty has a step. -/
theorem exists_plainStep {input : List Char} (filled : input ≠ []) :
    ∃ step rest, input = step ++ rest ∧ PlainStep step rest := by
  obtain ⟨first, others, rfl⟩ := List.exists_cons_of_ne_nil filled
  exact ⟨_, _, (plain_eq_some_iff _ _ _).mp rfl⟩

/-- A blank text before a text that is not blank is one step. -/
theorem PlainStep.ofSpaces {first : Char} {others rest : List Char}
    (blank : ∀ character ∈ first :: others, isChatSpace character = true)
    (ends : Stops isChatSpace rest) : PlainStep (first :: others) rest := by
  obtain ⟨firstBlank, othersBlank⟩ := List.forall_mem_cons.mp blank
  have notDigit := isDigit_of_isChatSpace firstBlank
  cases others with
  | nil =>
      cases rest with
      | nil =>
          have single : PlainStep (first :: ([] ++ [])) [] :=
            .word notDigit (by simp [isLoneSpace]) (by simp) (by simp) (by simp [Stops]) ends
          simpa using single
      | cons next later => exact .lone firstBlank (ends next rfl)
  | cons second more =>
      have secondBlank := othersBlank second List.mem_cons_self
      have noWord : Stops continuesWord (second :: more ++ rest) := by
        intro character head
        obtain rfl := Option.some.inj head
        simp [continuesWord, secondBlank]
      have several : PlainStep (first :: ([] ++ second :: more)) rest :=
        .word notDigit (by simp [isLoneSpace, secondBlank]) (by simp) othersBlank noWord ends
      simpa using several

/-- A step can be cut anywhere after its first character: what is left of it is a step again. -/
theorem PlainStep.cut {first next : Char} {front others rest : List Char}
    (isStep : PlainStep (first :: (front ++ next :: others)) rest)
    (notDigit : first.isDigit = false) : PlainStep (next :: others) rest := by
  generalize whole : first :: (front ++ next :: others) = step at isStep
  cases isStep with
  | digits digit ends =>
      obtain ⟨rfl, -⟩ := List.cons.injEq .. ▸ whole
      exact absurd (digit first List.mem_cons_self) (by simp [notDigit])
  | lone blank solid => simp at whole
  | @word _ word spaces _ _ _ inWord blank wordEnds spaceEnds =>
      obtain ⟨-, tail⟩ := List.cons.injEq .. ▸ whole
      rcases List.append_eq_append_iff.mp tail with ⟨later, rfl, isLater⟩ | ⟨early, rfl, isEarly⟩
      · cases later with
        | nil =>
            rw [List.nil_append] at isLater
            rw [← isLater] at blank
            exact .ofSpaces blank spaceEnds
        | cons character more =>
            obtain ⟨rfl, rfl⟩ := List.cons.injEq .. ▸ isLater
            have continues := inWord next (by simp)
            obtain ⟨nextNotDigit, -, nextSolid⟩ := (continuesWord_iff next).mp continues
            exact .word nextNotDigit (by simp [isLoneSpace, nextSolid])
              (fun other member => inWord other (by simp [member])) blank wordEnds spaceEnds
      · refine .ofSpaces (fun character member => blank character ?_) spaceEnds
        rw [isEarly]
        exact List.mem_append_right early member

/-- An opener is neither a digit nor space. -/
theorem isOpener_solid {character : Char} (opener : isOpener character = true) :
    character.isDigit = false ∧ isChatSpace character = false := by
  rw [isOpener, show "*@[(（#".toList = ['*', '@', '[', '(', '（', '#'] from by decide] at opener
  simp only [List.contains_cons, List.contains_nil, Bool.or_false, Bool.or_eq_true, beq_iff_eq]
    at opener
  rcases opener with rfl | rfl | rfl | rfl | rfl | rfl <;> decide

/-- No opener stands in a step after its first character. -/
theorem PlainStep.isOpener_eq_false {first character : Char} {others rest : List Char}
    (isStep : PlainStep (first :: others) rest) (member : character ∈ others) :
    isOpener character = false := by
  by_contra notFalse
  have opener : isOpener character = true := by simpa using notFalse
  obtain ⟨notDigit, notSpace⟩ := isOpener_solid opener
  cases isStep with
  | digits digit ends =>
      have isDigit := digit character (List.mem_cons_of_mem first member)
      exact absurd isDigit (by simp [notDigit])
  | lone blank solid => exact absurd member (by simp)
  | word _ _ inWord blank _ _ =>
      rcases List.mem_append.mp member with continues | space
      · exact notFalse ((continuesWord_iff character).mp (inWord character continues)).2.1
      · exact absurd (blank character space) (by simp [notSpace])

/-- A step that ends in a character that is no digit and no space ends where its word ends. -/
theorem PlainStep.stops_continuesWord {front rest : List Char} {last : Char}
    (isStep : PlainStep (front ++ [last]) rest) (notDigit : last.isDigit = false)
    (solid : isChatSpace last = false) : Stops continuesWord rest := by
  generalize whole : front ++ [last] = step at isStep
  cases isStep with
  | @digits first others _ digit ends =>
      have isDigit := digit last (by rw [← whole]; simp)
      exact absurd isDigit (by simp [notDigit])
  | @lone space _ _ blank _ =>
      have same : last = space := by
        have lasts := congrArg List.getLast? whole
        simpa using lasts
      exact absurd (same ▸ blank) (by simp [solid])
  | @word first word spaces _ _ _ inWord blank wordEnds _ =>
      -- The word would have to go on unless space ends it, and then the last character is space.
      rcases List.eq_nil_or_concat spaces with rfl | ⟨early, space, rfl⟩
      · simpa using wordEnds
      · have same : last = space := by
          have lasts := congrArg List.getLast? whole
          rw [List.concat_eq_append, ← List.append_assoc, ← List.cons_append,
            List.getLast?_concat, List.getLast?_concat] at lasts
          exact Option.some.inj lasts
        exact absurd (blank last (by simp [same])) (by simp [solid])

/-- A step that reaches over the end of a front leaves a step without openers behind it, or else a
word that ends there. -/
structure Overhang (front extra rest : List Char) : Prop where
  isStep : extra ≠ [] → PlainStep extra rest
  bare : ∀ character ∈ extra, isOpener character = false
  stops : extra = [] → ∀ last, front.getLast? = some last → isChatSpace last = false →
    Stops continuesWord rest

/-- A step over a front without digits has an overhang. -/
theorem PlainStep.overhang {front extra rest : List Char} (filled : front ≠ [])
    (notDigit : ∀ character ∈ front, character.isDigit = false)
    (isStep : PlainStep (front ++ extra) rest) : Overhang front extra rest := by
  obtain ⟨first, others, rfl⟩ := List.exists_cons_of_ne_nil filled
  refine ⟨fun more => ?_, fun character member => ?_, fun none last isLast solid => ?_⟩
  · obtain ⟨next, later, rfl⟩ := List.exists_cons_of_ne_nil more
    exact isStep.cut (notDigit first List.mem_cons_self)
  · exact isStep.isOpener_eq_false (List.mem_append_right others member)
  · obtain ⟨early, same⟩ := List.getLast?_eq_some_iff.mp isLast
    rw [none, List.append_nil, same] at isStep
    exact isStep.stops_continuesWord (notDigit last (by simp [same])) solid

end DiceChat.Markup
