import Mathlib.Data.List.Chain
import Mathlib.Data.List.Infix
import DiceChat.Proofs.Message.Reading

/-!
This file says which places of a source the loop over the rules visits. Plain text is cut wherever
something else may start, so the loop gets to each such place unless another rule takes it along.
Every cut takes at least one character, so the loop leaves nothing over.
-/

namespace DiceChat

open Markup Text

/-- Markup may open at these characters. -/
def openers : List Char := ['*', '@', '[', '(', '（', '#']

theorem isOpener_iff {character : Char} : isOpener character = true ↔ character ∈ openers := by
  rw [isOpener, show "*@[(（#".toList = openers from by decide, List.contains_iff_mem]

/-- A cut of plain text is the run of digits at the front of a text, or else it has no digit, and no
opener behind its first character. In both cases no solid character follows a space in it. -/
structure PlainCut (input step : List Char) : Prop where
  filled : step ≠ []
  uniform : step = input.takeWhile Char.isDigit ∨
    ((∀ character ∈ step, character.isDigit = false) ∧
      ∀ character ∈ step.tail, character ∉ openers)
  spaced : step.IsChain fun first second => isChatSpace first = true → isChatSpace second = true

/-- Solid characters and then space have no solid character behind a space. -/
theorem isChain_solid_blank {solid blank : List Char}
    (isSolid : ∀ character ∈ solid, isChatSpace character = false)
    (isBlank : ∀ character ∈ blank, isChatSpace character = true) :
    (solid ++ blank).IsChain fun first second =>
      isChatSpace first = true → isChatSpace second = true := by
  induction solid with
  | nil =>
      apply List.Pairwise.isChain
      exact List.pairwise_of_forall_mem_list fun _ _ second member _ => isBlank second member
  | cons first others ih =>
      obtain ⟨firstSolid, othersSolid⟩ := List.forall_mem_cons.mp isSolid
      rw [List.cons_append, List.isChain_cons]
      exact ⟨fun _ _ space => absurd space (by simp [firstSolid]), ih othersSolid⟩

/-- A plain step is a run of solid characters and then a run of space. -/
theorem Markup.PlainStep.solid_blank {step rest : List Char} (isStep : PlainStep step rest) :
    ∃ solid blank, step = solid ++ blank ∧
      (∀ character ∈ solid, isChatSpace character = false) ∧
      ∀ character ∈ blank, isChatSpace character = true := by
  cases isStep with
  | digits digit ends =>
      refine ⟨_, [], (List.append_nil _).symm, fun character member => ?_, by simp⟩
      by_contra space
      have notDigit := isDigit_of_isChatSpace (Bool.not_eq_false _ ▸ space)
      exact absurd (digit character member) (by simp [notDigit])
  | @lone space _ _ blank _ => exact ⟨[], [space], rfl, by simp, by simpa using blank⟩
  | @word first word spaces rest notDigit notLone inWord blank wordEnds spaceEnds =>
      have wordSolid (character : Char) (member : character ∈ word) :
          isChatSpace character = false :=
        ((continuesWord_iff character).mp (inWord character member)).2.2
      cases firstSpace : isChatSpace first with
      | false =>
          refine ⟨first :: word, spaces, rfl, ?_, blank⟩
          exact List.forall_mem_cons.mpr ⟨firstSpace, wordSolid⟩
      | true =>
          -- Space that is not alone has no word behind it.
          cases word with
          | nil =>
              refine ⟨[], first :: spaces, rfl, by simp, ?_⟩
              exact List.forall_mem_cons.mpr ⟨firstSpace, blank⟩
          | cons next others =>
              have solid := wordSolid next List.mem_cons_self
              exact absurd notLone (by simp [isLoneSpace, firstSpace, solid])

/-- A plain step is a cut. -/
theorem Markup.PlainStep.plainCut {step rest : List Char} (isStep : PlainStep step rest) :
    PlainCut (step ++ rest) step := by
  refine ⟨isStep.ne_nil, ?_, ?_⟩
  · cases isStep with
    | digits digit ends => exact .inl (takeWhile_of_stops digit ends).symm
    | lone blank solid => exact .inr ⟨by simpa using isDigit_of_isChatSpace blank, by simp⟩
    | @word first word spaces _ notDigit notLone inWord blank wordEnds spaceEnds =>
        have whole : PlainStep (first :: (word ++ spaces)) rest :=
          .word notDigit notLone inWord blank wordEnds spaceEnds
        have closed (character : Char) (member : character ∈ word ++ spaces) :
            character ∉ openers := fun opener =>
          absurd (isOpener_iff.mpr opener) (by simp [whole.isOpener_eq_false member])
        refine .inr ⟨?_, closed⟩
        simp only [List.mem_cons, List.mem_append]
        rintro character (rfl | continues | space)
        · exact notDigit
        · exact ((continuesWord_iff character).mp (inWord character continues)).1
        · exact isDigit_of_isChatSpace (blank character space)
  · obtain ⟨solid, blank, rfl, isSolid, isBlank⟩ := isStep.solid_blank
    exact isChain_solid_blank isSolid isBlank

/-- Something other than plain text may start at an opener, at the first digit of a run, or at the
first solid character behind space. -/
def MayStart (before place : List Char) : Prop :=
  ∃ first others, place = first :: others ∧
    (first ∈ openers ∨
      (first.isDigit = true ∧ ∀ last, before.getLast? = some last → last.isDigit = false) ∨
      (isChatSpace first = false ∧ ∃ last, before.getLast? = some last ∧ isChatSpace last = true))

/-- Whether something may start depends on the nearest characters only. -/
theorem MayStart.of_append {early before place : List Char}
    (start : MayStart (early ++ before) place) (filled : before ≠ []) : MayStart before place := by
  rwa [MayStart, List.getLast?_append_of_ne_nil early filled] at start

/-- Nothing may start inside a cut. -/
theorem PlainCut.not_mayStart {front back rest : List Char} (started : front ≠ [])
    (inside : back ≠ []) (cut : PlainCut (front ++ back ++ rest) (front ++ back)) :
    ¬ MayStart front (back ++ rest) := by
  rintro ⟨first, others, whole, start⟩
  obtain ⟨next, later, rfl⟩ := List.exists_cons_of_ne_nil inside
  obtain ⟨rfl, rfl⟩ := List.cons.injEq .. ▸ whole
  have allDigits (run : front ++ next :: later =
      (front ++ next :: later ++ rest).takeWhile Char.isDigit) (character : Char)
      (member : character ∈ front ++ next :: later) : character.isDigit = true :=
    List.mem_takeWhile_imp (run ▸ member)
  have isNext : next ∈ front ++ next :: later := by simp
  have behind : next ∈ (front ++ next :: later).tail := by
    rw [List.tail_append_of_ne_nil started]
    simp
  have isLast := List.getLast?_eq_some_getLast started
  rcases start with opener | ⟨digit, starts⟩ | ⟨solid, space, isSpace, blank⟩
  · rcases cut.uniform with run | ⟨-, noOpener⟩
    · obtain ⟨notDigit, -⟩ := isOpener_solid (isOpener_iff.mpr opener)
      exact absurd (allDigits run next isNext) (by simp [notDigit])
    · exact noOpener next behind opener
  · rcases cut.uniform with run | ⟨noDigit, -⟩
    · have lastDigit := allDigits run _ (List.mem_append_left _ (List.getLast_mem started))
      exact absurd lastDigit (by simp [starts _ isLast])
    · exact absurd digit (by simp [noDigit next isNext])
  · obtain ⟨-, -, joint⟩ := List.isChain_append.mp cut.spaced
    exact absurd (joint space isSpace next rfl blank) (by simp [solid])

/-- The loop stands at a place behind the pieces that it has read, tries the rules in their order,
and reads a piece there with the first rule that matches. -/
structure LoopReads (rules : List Rule) (source before place : List Char) (rule : Rule)
    (piece : Piece) : Prop where
  whole : source = before ++ place
  reached : ∃ early late, (readPieces rules source).1 = early ++ piece :: late ∧
    early.flatMap Piece.source = before ∧ piece.source ++ late.flatMap Piece.source = place
  first : ∃ passed later, rules = passed ++ rule :: later ∧
    ∀ other ∈ passed, other.read place = none
  read : ∃ rest, rule.read place = some (piece, rest) ∧ place = piece.source ++ rest

/-- A place is offered to the rules if the loop reads a piece there. -/
def Offered (rules : List Rule) (source before place : List Char) : Prop :=
  ∃ rule piece, LoopReads rules source before place rule piece

/-- Another rule than plain text reads a piece at an earlier place that reaches past this one. -/
def TakenOver (rules : List Rule) (source before place : List Char) : Prop :=
  ∃ early front rule piece, before = early ++ front ∧ front ≠ [] ∧
    front.length < piece.source.length ∧ rule ≠ .span ∧
    LoopReads rules source early (front ++ place) rule piece

/-- Plain text does not reach over a place where something may start. -/
theorem LoopReads.not_span {rules : List Rule} {source before front back rest : List Char}
    {piece : Piece} (reads : LoopReads rules source before (front ++ (back ++ rest)) .span piece)
    (isSource : piece.source = front ++ back) (started : front ≠ []) (inside : back ≠ []) :
    ¬ MayStart front (back ++ rest) := by
  obtain ⟨after, read, whole⟩ := reads.read
  obtain ⟨⟨step, later⟩, isPlain, pair⟩ := Option.map_eq_some_iff.mp read
  obtain ⟨rfl, rfl⟩ := Prod.mk.injEq .. ▸ pair
  obtain ⟨same, isStep⟩ := (plain_eq_some_iff _ _ _).mp isPlain
  obtain rfl : step = front ++ back := isSource
  have cut := isStep.plainCut
  rw [← same, ← List.append_assoc] at cut
  exact cut.not_mayStart started inside

/-- Plain text is read from every text that is not empty. -/
theorem span_read_isSome {input : List Char} (filled : input ≠ []) :
    ∃ step rest, Rule.span.read input = some (.plain step, rest) ∧ input = step ++ rest ∧
      PlainStep step rest := by
  obtain ⟨step, rest, whole, isStep⟩ := exists_plainStep filled
  have found := (plain_eq_some_iff input step rest).mpr ⟨whole, isStep⟩
  exact ⟨step, rest, congrArg (Option.map _) found, whole, isStep⟩

/-- A place in the source of some pieces lies in the source of one of them, before its end. -/
theorem exists_piece_of_flatMap {pieces : List Piece} {before place : List Char}
    (whole : pieces.flatMap Piece.source = before ++ place) (filled : place ≠ []) :
    ∃ early piece late front back, pieces = early ++ piece :: late ∧
      before = early.flatMap Piece.source ++ front ∧ piece.source = front ++ back ∧ back ≠ [] ∧
      place = back ++ late.flatMap Piece.source := by
  induction pieces generalizing before with
  | nil => exact absurd (List.append_eq_nil_iff.mp whole.symm).2 filled
  | cons piece others ih =>
      have behind {front : List Char} (isBefore : before = piece.source ++ front)
          (later : others.flatMap Piece.source = front ++ place) :
          ∃ early next late front back, piece :: others = early ++ next :: late ∧
            before = early.flatMap Piece.source ++ front ∧ next.source = front ++ back ∧
            back ≠ [] ∧ place = back ++ late.flatMap Piece.source := by
        obtain ⟨early, next, late, front, back, rfl, rfl, rest⟩ := ih later
        refine ⟨piece :: early, next, late, front, back, rfl, ?_, rest⟩
        rw [isBefore, List.flatMap_cons, List.append_assoc]
      rw [List.flatMap_cons] at whole
      rcases List.append_eq_append_iff.mp whole with ⟨front, isBefore, later⟩ | ⟨back, split, rest⟩
      · exact behind isBefore later
      · by_cases inside : back = []
        · subst inside
          exact @behind [] (by rw [split, List.append_nil, List.append_nil]) rest.symm
        · exact ⟨[], piece, others, before, back, rfl, rfl, split, inside, rest⟩

section

variable {rules : List Rule} (tried : .span ∈ rules)

include tried

/-- With plain text among the rules the loop ends at the end of the source only. -/
theorem eq_nil_of_firstPiece_eq_none {input : List Char} (missing : firstPiece rules input = none) :
    input = [] := by
  by_contra filled
  obtain ⟨step, rest, found, -⟩ := span_read_isSome filled
  exact absurd (found.symm.trans (List.findSome?_eq_none_iff.mp missing _ tried)) (by simp)

/-- The loop leaves nothing over. -/
theorem readPieces_left (input : List Char) : (readPieces rules input).2 = [] := by
  induction input using firstPiece_induction rules with
  | last input missing =>
      rw [readPieces_of_none missing]
      exact eq_nil_of_firstPiece_eq_none tried missing
  | step input piece rest found ih => rw [readPieces_of_some found, ih]

/-- The pieces of the loop spell the source. -/
theorem readPieces_source (input : List Char) :
    (readPieces rules input).1.flatMap Piece.source = input := by
  have whole := readPieces_append rules input
  rwa [readPieces_left tried, List.append_nil] at whole

/-- Nothing is kept as plain text behind the pieces of the loop. -/
theorem pieces_eq_readPieces (input : List Char) :
    pieces rules input = (readPieces rules input).1 := by
  have left := readPieces_left tried input
  unfold pieces
  split
  · rename_i found same
    rw [same]
  · rename_i found rest filled same
    rw [same] at left
    exact absurd left (by simpa using filled)

/-- The loop reads each of its pieces at the place behind the pieces before it. -/
theorem loopReads_of_split {source : List Char} {early late : List Piece} {piece : Piece}
    (split : (readPieces rules source).1 = early ++ piece :: late) :
    ∃ rule, LoopReads rules source (early.flatMap Piece.source)
      ((piece :: late).flatMap Piece.source) rule piece := by
  induction source using firstPiece_induction rules generalizing early with
  | last source missing =>
      rw [readPieces_of_none missing] at split
      exact absurd split (by simp)
  | step source next rest found ih =>
      have isRest := readPieces_source tried rest
      have whole := (firstPiece_split found).1
      rw [readPieces_of_some found] at split
      cases early with
      | nil =>
          obtain ⟨rfl, rfl⟩ := List.cons.inj split
          obtain ⟨passed, rule, later, isRules, read, fails⟩ := List.findSome?_eq_some_iff.mp found
          rw [List.flatMap_nil, List.flatMap_cons, isRest, ← whole]
          have pieces := congrArg Prod.fst (readPieces_of_some found)
          refine ⟨rule, rfl, ⟨[], _, pieces, rfl, ?_⟩, ⟨passed, later, isRules, fails⟩, rest, read,
            whole⟩
          rw [isRest, whole]
      | cons first others =>
          obtain ⟨rfl, later⟩ := List.cons.inj split
          obtain ⟨rule, atRest⟩ := ih later
          refine ⟨rule, ?_, ⟨next :: others, late, ?_, rfl, rfl⟩, atRest.first, atRest.read⟩
          · rw [whole, List.flatMap_cons, List.append_assoc, ← atRest.whole]
          · rw [readPieces_of_some found, later]
            rfl

/-- Every place where something may start is offered to the rules, or another rule than plain text
takes it over. -/
theorem offered_or_takenOver {source before place : List Char} (whole : source = before ++ place)
    (start : MayStart before place) :
    Offered rules source before place ∨ TakenOver rules source before place := by
  have filled : place ≠ [] := by
    obtain ⟨first, others, rfl, -⟩ := start
    exact List.cons_ne_nil first others
  obtain ⟨early, piece, late, front, back, split, rfl, isSource, inside, rfl⟩ :=
    exists_piece_of_flatMap ((readPieces_source tried source).trans whole) filled
  obtain ⟨rule, reads⟩ := loopReads_of_split tried split
  rw [List.flatMap_cons, isSource, List.append_assoc] at reads
  by_cases started : front = []
  · subst started
    rw [List.append_nil]
    exact .inl ⟨rule, piece, reads⟩
  · refine .inr ⟨early.flatMap Piece.source, front, rule, piece, rfl, started, ?_, ?_, reads⟩
    · rw [isSource, List.length_append]
      exact Nat.lt_add_of_pos_right (List.length_pos_iff.mpr inside)
    · rintro rfl
      exact reads.not_span isSource started inside (start.of_append started)

end

/-- Faithful pieces are no more than the characters of their source. -/
theorem length_le_of_faithful {pieces : List Piece} (faithful : ∀ piece ∈ pieces, piece.Faithful) :
    pieces.length ≤ (pieces.flatMap Piece.source).length := by
  induction pieces with
  | nil => exact Nat.le_refl 0
  | cons piece others ih =>
      obtain ⟨first, later⟩ := List.forall_mem_cons.mp faithful
      have taken := List.length_pos_iff.mpr first.source_ne_nil
      have bound := ih later
      rw [List.flatMap_cons, List.length_append, List.length_cons]
      omega

/-- Plain text can be read from every text that is not empty, and what is read is a cut. So the loop
over the active rules reads the whole source and leaves nothing over. The raw entities are its
pieces, at most one for each character. Every place where something may start is offered to the
rules, unless another rule than plain text takes the source from an earlier place past it. -/
theorem loop_visits (env : Env) (source : String) :
    (∀ input, input ≠ [] → ∃ step rest, Rule.span.read input = some (.plain step, rest) ∧
        input = step ++ rest ∧ PlainCut input step) ∧
      (readPieces (Rule.active env source.toList) source.toList).2 = [] ∧
      (readPieces (Rule.active env source.toList) source.toList).1.flatMap Piece.source =
        source.toList ∧
      (report env source).rawEntities =
        (readPieces (Rule.active env source.toList) source.toList).1.length ∧
      (report env source).rawEntities ≤ source.length ∧
      ∀ before place, source.toList = before ++ place → MayStart before place →
        Offered (Rule.active env source.toList) source.toList before place ∨
          TakenOver (Rule.active env source.toList) source.toList before place := by
  have tried := span_mem_active env source.toList
  have spelled := readPieces_source tried source.toList
  have raw : (report env source).rawEntities =
      (readPieces (Rule.active env source.toList) source.toList).1.length :=
    congrArg List.length (pieces_eq_readPieces tried source.toList)
  refine ⟨fun input filled => ?_, readPieces_left tried _, spelled, raw, ?_,
    fun before place whole start => offered_or_takenOver tried whole start⟩
  · obtain ⟨step, rest, found, rfl, isStep⟩ := span_read_isSome filled
    exact ⟨step, rest, found, rfl, isStep.plainCut⟩
  · have faithful := readPieces_faithful (Rule.active env source.toList) source.toList
    have bound := length_le_of_faithful faithful
    rwa [spelled, String.length_toList, ← raw] at bound

/-- The loop gets to the bracket of the link, and the roll takes the digit behind its letter
along. -/
theorem loop_visits_link :
    (∃ step rest, Rule.span.read "x9 ".toList = some (.plain step, rest) ∧
        "x9 ".toList = step ++ rest ∧ PlainCut "x9 ".toList step) ∧
      Rule.active {} "x9 [a](b) d6".toList = [.link, .expression, .span] ∧
      readPieces [.link, .expression, .span] "x9 [a](b) d6".toList =
        ([.plain ['x'], .plain ['9'], .plain [' '], ⟨"[a](b)".toList, ['a'], .link ['b']⟩,
          .plain [' '], ⟨['d', '6'], ['d', '6'], .expr (.roll 1 (some 6))⟩], []) ∧
      (report {} "x9 [a](b) d6").rawEntities = 6 ∧
      MayStart "x9 ".toList "[a](b) d6".toList ∧ MayStart "x9 [a](b) d".toList "6".toList ∧
      LoopReads [.link, .expression, .span] "x9 [a](b) d6".toList "x9 ".toList
        "[a](b) d6".toList .link ⟨"[a](b)".toList, ['a'], .link ['b']⟩ ∧
      ¬ Offered [.link, .expression, .span] "x9 [a](b) d6".toList "x9 [a](b) d".toList
        "6".toList ∧
      TakenOver [.link, .expression, .span] "x9 [a](b) d6".toList "x9 [a](b) d".toList
        "6".toList := by
  obtain ⟨reads, -, -, raw, -, visits⟩ := loop_visits {} "x9 [a](b) d6"
  have active : Rule.active {} "x9 [a](b) d6".toList = [.link, .expression, .span] := by decide
  have loop : readPieces [.link, .expression, .span] "x9 [a](b) d6".toList =
      ([.plain ['x'], .plain ['9'], .plain [' '], ⟨"[a](b)".toList, ['a'], .link ['b']⟩,
        .plain [' '], ⟨['d', '6'], ['d', '6'], .expr (.roll 1 (some 6))⟩], []) := by
    decide +kernel
  rw [active, loop] at raw
  rw [active] at visits
  have bracket : MayStart "x9 ".toList "[a](b) d6".toList :=
    ⟨'[', "a](b) d6".toList, by decide, .inl (by decide)⟩
  have digit : MayStart "x9 [a](b) d".toList "6".toList := by
    refine ⟨'6', [], by decide, .inr (.inl ⟨by decide, fun last isLast => ?_⟩)⟩
    have letter : "x9 [a](b) d".toList.getLast? = some 'd' := by decide
    obtain rfl := Option.some.inj (letter.symm.trans isLast)
    decide
  have atBracket : LoopReads [.link, .expression, .span] "x9 [a](b) d6".toList "x9 ".toList
      "[a](b) d6".toList .link ⟨"[a](b)".toList, ['a'], .link ['b']⟩ := by
    refine ⟨by decide, ⟨[.plain ['x'], .plain ['9'], .plain [' ']],
      [.plain [' '], ⟨['d', '6'], ['d', '6'], .expr (.roll 1 (some 6))⟩], congrArg Prod.fst loop,
      by decide, by decide⟩, ⟨[], _, rfl, by simp⟩, " d6".toList, by decide +kernel, by decide⟩
  -- No front of the pieces ends between the letter and the digit.
  have apart : ¬ Offered [.link, .expression, .span] "x9 [a](b) d6".toList "x9 [a](b) d".toList
      "6".toList := by
    rintro ⟨rule, piece, -, ⟨early, late, split, ends, -⟩, -, -⟩
    have fronts : ∀ front ∈ (readPieces [.link, .expression, .span]
        "x9 [a](b) d6".toList).1.inits, front.flatMap Piece.source ≠ "x9 [a](b) d".toList := by
      decide +kernel
    exact fronts early ((List.mem_inits early _).mpr ⟨_, split.symm⟩) ends
  exact ⟨reads _ (by decide), active, loop, raw, bracket, digit, atBracket, apart,
    (visits _ _ (by decide) digit).resolve_left apart⟩

end DiceChat
