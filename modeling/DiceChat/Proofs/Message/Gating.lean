import DiceChat.Proofs.Message.Coverage
import DiceChat.Proofs.Message.Fallback

/-!
This file compares a message with what all enabled rules make of its source. The two differ only
if the expression rule is skipped although brackets are too deep somewhere: with that rule the run
of tokens there is one text, and without it the other rules read on inside. The results agree
exactly if no markup starts inside such a run and no address right behind it.
-/

namespace DiceChat

open Grammar Markup

/-- The run of tokens at the front hides no markup from the other rules, and none starts behind it
that they would miss. -/
def HidesNoMarkup (input : List Char) : Prop :=
  (∀ early later, input = early ++ later → early.length < (tokenRun input).length →
    strong later = none ∧ link later = none) ∧ url (afterTokens input) = none

/-- Skipping the expression rule makes no difference to a source. -/
def SkipsHarmlessly (env : Env) (source : String) : Prop :=
  env.parseExpr = true → Rule.expression.triggeredBy source.toList = false →
    ∀ input, Visits (Rule.enabled env) source.toList input → FallsBack input →
      HidesNoMarkup input

/-- An untriggered expression rule means a source without dice. -/
theorem diceless_of_untriggered {source : List Char}
    (closed : Rule.expression.triggeredBy source = false) : Diceless source := by
  rw [Rule.triggeredBy, Bool.or_eq_false_iff, List.any_eq_false] at closed
  intro character member
  refine ⟨by simpa using closed.1 character member, ?_⟩
  intro letter
  subst letter
  exact absurd closed.2 (by simp [member])

/-- No strong text and no link starts behind a run of tokens. -/
theorem markup_afterTokens (input : List Char) :
    strong (afterTokens input) = none ∧ link (afterTokens input) = none := by
  have noToken := token_afterTokens input
  constructor
  · cases found : strong (afterTokens input) with
    | none => rfl
    | some content =>
        rw [(strong_split found).1] at noToken
        have isToken (rest : List Char) : token ('*' :: rest) = some rest := rfl
        exact absurd (noToken.symm.trans (isToken _)) (by simp)
  · cases found : link (afterTokens input) with
    | none => rfl
    | some shown =>
        rw [(link_split found).1] at noToken
        have isToken (rest : List Char) : token ('[' :: rest) = some rest := rfl
        exact absurd (noToken.symm.trans (isToken _)) (by simp)

/-- A run of tokens without markup inside is bare. -/
theorem bare_tokenRun {input : List Char} (diceless : Diceless input)
    (unmarked : ∀ early later, input = early ++ later →
      early.length < (tokenRun input).length → strong later = none ∧ link later = none) :
    Bare (tokenRun input) (afterTokens input) := by
  refine ⟨symbol_of_mem_tokenRun diceless, fun early later whole inside => ?_⟩
  rw [tokenRun_append] at whole
  exact unmarked early later whole inside

/-- Without hidden markup the other rules merge a run of tokens to one text, too. -/
theorem FallsBack.mergePlain_eq {input : List Char} (diceless : Diceless input)
    (falls : FallsBack input) (hides : HidesNoMarkup input) :
    mergePlain (pieces Rule.withoutExpression input) =
      mergePlain (.plain (tokenRun input) ::
        pieces Rule.withoutExpression (afterTokens input)) := by
  have noMarkup : firstPiece Rule.markup (afterTokens input) = none := by
    obtain ⟨noStrong, noLink⟩ := markup_afterTokens input
    exact firstPiece_markup_eq_none.mpr ⟨noStrong, noLink, hides.2⟩
  have merged := (bare_tokenRun diceless hides.1).mergePlain_eq (falls.tokenRun_ne_nil diceless)
    (.inl noMarkup)
  rwa [tokenRun_append] at merged

/-- Without hidden markup all rules and the rules without expressions merge to the same pieces. -/
theorem mergePlain_pieces_eq {input : List Char} (diceless : Diceless input)
    (hides : ∀ place, Visits Rule.all input place → FallsBack place → HidesNoMarkup place) :
    mergePlain (pieces Rule.all input) = mergePlain (pieces Rule.withoutExpression input) := by
  induction input using firstPiece_induction Rule.all with
  | last input missing =>
      have alsoMissing : firstPiece Rule.withoutExpression input = none := by
        rw [firstPiece_all, Option.or_eq_none_iff, Option.or_eq_none_iff] at missing
        rw [firstPiece_withoutExpression, missing.1, missing.2.2]
        rfl
      rw [pieces, pieces, readPieces_of_none missing, readPieces_of_none alsoMissing]
  | step input piece rest found ih =>
      have suffix : rest <:+ input := ⟨piece.source, (firstPiece_split found).1.symm⟩
      have later := ih (diceless.of_suffix suffix)
        fun place visits => hides place (.step found visits)
      rw [pieces_of_some found, mergePlain_cons, later, ← mergePlain_cons]
      rcases firstPiece_cases diceless found with ⟨-, same⟩ | ⟨falls, rfl, rfl⟩
      · rw [pieces_of_some same]
      · rw [falls.mergePlain_eq diceless (hides input (.start input) falls)]

/-- This tells for each code unit of a text whether a plain piece covers it. -/
def plainUnits (pieces : List Piece) : List Bool :=
  pieces.flatMap fun piece => List.replicate (Text.units piece.text) piece.isPlain

theorem plainUnits_cons (piece : Piece) (others : List Piece) :
    plainUnits (piece :: others) =
      List.replicate (Text.units piece.text) piece.isPlain ++ plainUnits others := rfl

/-- Merging covers the same code units with plain pieces. -/
theorem plainUnits_mergePlain (pieces : List Piece) :
    plainUnits (mergePlain pieces) = plainUnits pieces := by
  apply flatMap_mergePlain
  intro first second firstPlain secondPlain
  rw [Text.units_append, firstPlain, secondPlain, ← List.replicate_append_replicate]
  rfl

/-- The entities of pieces tell which code units are plain. -/
theorem plainUnits_layout (face : UInt32) (start : Nat) (pieces : List Piece)
    (fits : Text.units (textOf pieces) < UInt64.size) :
    plainUnits pieces = (layout face start pieces).flatMap fun entity =>
      List.replicate entity.offset.toNat entity.isText := by
  induction pieces generalizing start with
  | nil => rfl
  | cons piece others ih =>
      rw [textOf, List.flatMap_cons, Text.units_append] at fits
      have later : Text.units (textOf others) < UInt64.size := by
        rw [textOf]
        omega
      have whole : (UInt64.ofNat (Text.units piece.text)).toNat = Text.units piece.text :=
        UInt64.toNat_ofNat_of_lt' (by omega)
      rw [plainUnits_cons, ih (start + Text.units piece.text) later, layout, List.flatMap_cons,
        whole, Entity.isText, Entity.kind, Piece.kind_body]

/-- A plain piece can be cut without changing which code units are plain. -/
theorem plainUnits_plain_append (front back : List Char) (others : List Piece) :
    plainUnits (.plain (front ++ back) :: others) =
      plainUnits (.plain front :: .plain back :: others) := by
  rw [← plainUnits_mergePlain, ← mergePlain_plain, plainUnits_mergePlain]

/-- Pieces that cover the same code units start with a plain piece both or neither. -/
theorem isPlain_eq_of_plainUnits {first second : Piece} {firsts seconds : List Piece}
    (firstFilled : first.text ≠ []) (secondFilled : second.text ≠ [])
    (same : plainUnits (first :: firsts) = plainUnits (second :: seconds)) :
    first.isPlain = second.isPlain := by
  have some {text : List Char} (filled : text ≠ []) : ∃ more, Text.units text = more + 1 := by
    apply Nat.exists_eq_add_one.mpr
    apply Nat.pos_of_ne_zero
    intro none
    exact filled ((Text.measure_eq_zero Text.unitSize_positive text).mp none)
  obtain ⟨more, firstUnits⟩ := some firstFilled
  obtain ⟨less, secondUnits⟩ := some secondFilled
  rw [plainUnits_cons, plainUnits_cons, firstUnits, secondUnits, List.replicate_succ,
    List.replicate_succ, List.cons_append, List.cons_append] at same
  exact (List.cons.injEq .. ▸ same).1

/-- Markup makes the next piece of both lists of rules. -/
theorem pieces_of_markup {input rest : List Char} {piece : Piece}
    (found : firstPiece Rule.markup input = some (piece, rest)) :
    pieces Rule.all input = piece :: pieces Rule.all rest ∧
      pieces Rule.withoutExpression input = piece :: pieces Rule.withoutExpression rest := by
  constructor
  · apply pieces_of_some
    rw [firstPiece_all, found, Option.some_or]
  · apply pieces_of_some
    rw [firstPiece_withoutExpression, found, Option.some_or]

/-- Strong text and links start with an opener and make a piece. -/
theorem firstPiece_of_opener {input : List Char}
    (marked : ¬ (strong input = none ∧ link input = none)) :
    (∃ first others, input = first :: others ∧ isOpener first = true) ∧
      ∃ piece rest, firstPiece Rule.markup input = some (piece, rest) := by
  constructor
  · cases isStrong : strong input with
    | some content => exact ⟨_, _, (strong_split isStrong).1, by decide⟩
    | none =>
        cases isLink : link input with
        | some shown => exact ⟨_, _, (link_split isLink).1, by decide⟩
        | none => exact absurd ⟨isStrong, isLink⟩ marked
  · cases found : firstPiece Rule.markup input with
    | some result => exact ⟨result.1, result.2, rfl⟩
    | none =>
        obtain ⟨noStrong, noLink, -⟩ := firstPiece_markup_eq_none.mp found
        exact absurd ⟨noStrong, noLink⟩ marked

section

variable {input : List Char}

/-- If the same code units are plain, no markup starts inside the run of tokens. -/
theorem unmarked_of_plainUnits (diceless : Diceless input) (falls : FallsBack input)
    (same : plainUnits (pieces Rule.all input) = plainUnits (pieces Rule.withoutExpression input))
    {early later : List Char} (whole : input = early ++ later)
    (inside : early.length < (tokenRun input).length) :
    strong later = none ∧ link later = none := by
  induction size : early.length using Nat.strongRecOn generalizing early later with
  | ind bound ih =>
      by_contra marked
      obtain ⟨opener, piece, rest, found⟩ := firstPiece_of_opener marked
      obtain ⟨more, split⟩ : early <+: tokenRun input := by
        apply List.prefix_of_prefix_length_le ⟨later, whole.symm⟩ ⟨_, tokenRun_append input⟩
        exact Nat.le_of_lt inside
      have goesOn : more ≠ [] := by
        intro empty
        rw [← split, empty, List.append_nil] at inside
        exact Nat.lt_irrefl _ inside
      have filled : early ≠ [] := by
        intro empty
        obtain rfl : input = later := by rw [whole, empty, List.nil_append]
        obtain ⟨noStrong, noLink, -⟩ :=
          firstPiece_markup_eq_none.mp (falls.markup_eq_none diceless)
        exact marked ⟨noStrong, noLink⟩
      have bare : Bare early later := by
        refine ⟨fun character member => ?_, fun before after isSplit shorter => ?_⟩
        · apply symbol_of_mem_tokenRun diceless
          rw [← split]
          exact List.mem_append_left more member
        · exact ih before.length (by omega) (whole.trans isSplit) (by omega) rfl
      have merged := bare.mergePlain_eq filled (.inr opener)
      rw [pieces_of_some (falls.firstPiece_eq diceless), ← split, plainUnits_plain_append,
        ← plainUnits_mergePlain (pieces Rule.withoutExpression input), whole, merged,
        plainUnits_mergePlain, (pieces_of_markup found).2, plainUnits_cons,
        plainUnits_cons (.plain early)] at same
      have plain := isPlain_eq_of_plainUnits goesOn (firstPiece_split found).2.filled
        (List.append_cancel_left same)
      exact absurd plain (by simp [isPlain_of_markup found])

/-- If the same code units are plain, no address starts behind the run of tokens. -/
theorem url_eq_none_of_plainUnits (diceless : Diceless input) (falls : FallsBack input)
    (same : plainUnits (pieces Rule.all input) = plainUnits (pieces Rule.withoutExpression input))
    (bare : Bare (tokenRun input) (afterTokens input)) : url (afterTokens input) = none := by
  have filled := falls.tokenRun_ne_nil diceless
  by_contra present
  obtain ⟨address, found⟩ := Option.ne_none_iff_exists'.mp present
  obtain ⟨extra, rest, split, hang, merged⟩ := bare.pieces_through filled
  have goesOn : extra ≠ [] := by
    intro empty
    obtain ⟨front, last, isLast, symbol⟩ := tokenRun_last diceless filled
    have stops := hang.stops empty last (by simp [isLast]) (isSymbol_facts symbol).2.1
    rw [empty, List.nil_append] at split
    obtain ⟨later, scheme⟩ := url_head found
    exact absurd (stops 'h' (by rw [← split, scheme]; rfl)) (by decide)
  obtain ⟨piece, later, marked⟩ :
      ∃ piece later, firstPiece Rule.markup (afterTokens input) = some (piece, later) := by
    cases missing : firstPiece Rule.markup (afterTokens input) with
    | some result => exact ⟨result.1, result.2, rfl⟩
    | none => exact absurd (firstPiece_markup_eq_none.mp missing).2.2 present
  rw [tokenRun_append] at merged
  rw [pieces_of_some (falls.firstPiece_eq diceless), (pieces_of_markup marked).1,
    ← plainUnits_mergePlain (pieces Rule.withoutExpression input), merged,
    plainUnits_mergePlain, plainUnits_plain_append, plainUnits_cons,
    plainUnits_cons (.plain (tokenRun input))] at same
  have plain := isPlain_eq_of_plainUnits (firstPiece_split marked).2.filled
    (show (Piece.plain extra).text ≠ [] from goesOn) (List.append_cancel_left same)
  exact absurd plain (by simp [isPlain_of_markup marked])

/-- If the same code units are plain, the run of tokens hides no markup. -/
theorem FallsBack.hidesNoMarkup (diceless : Diceless input) (falls : FallsBack input)
    (same : plainUnits (pieces Rule.all input) =
      plainUnits (pieces Rule.withoutExpression input)) : HidesNoMarkup input := by
  have unmarked (early later : List Char) (whole : input = early ++ later)
      (inside : early.length < (tokenRun input).length) :=
    unmarked_of_plainUnits diceless falls same whole inside
  have bare := bare_tokenRun diceless unmarked
  exact ⟨unmarked, url_eq_none_of_plainUnits diceless falls same bare⟩

end

/-- If the same code units are plain, no run of tokens on the way hides markup. -/
theorem hidesNoMarkup_of_visits {input place : List Char} (diceless : Diceless input)
    (same : plainUnits (pieces Rule.all input) = plainUnits (pieces Rule.withoutExpression input))
    (visits : Visits Rule.all input place) (falls : FallsBack place) : HidesNoMarkup place := by
  induction visits with
  | start input => exact falls.hidesNoMarkup diceless same
  | @step input rest place piece found visits ih =>
      have suffix : rest <:+ input := ⟨piece.source, (firstPiece_split found).1.symm⟩
      apply ih (diceless.of_suffix suffix) _ falls
      rw [pieces_of_some found] at same
      rcases firstPiece_cases diceless found with ⟨-, alsoFound⟩ | ⟨fallsHere, rfl, rfl⟩
      · rw [pieces_of_some alsoFound, plainUnits_cons, plainUnits_cons] at same
        exact List.append_cancel_left same
      · have hides := fallsHere.hidesNoMarkup diceless
          (by rw [pieces_of_some (fallsHere.firstPiece_eq diceless), same])
        rw [← plainUnits_mergePlain (pieces Rule.withoutExpression input),
          fallsHere.mergePlain_eq diceless hides, plainUnits_mergePlain, plainUnits_cons,
          plainUnits_cons] at same
        exact List.append_cancel_left same

/-- Equal messages of a short source have the same plain code units. -/
theorem plainUnits_eq_of_parseWith {first second : List Rule} {face : UInt32} {source : String}
    (short : source.utf8ByteSize < 2 ^ 63)
    (same : parseWith first face source.toList = parseWith second face source.toList) :
    plainUnits (pieces first source.toList) = plainUnits (pieces second source.toList) := by
  rw [parseWith_eq_layout, parseWith_eq_layout, Message.mk.injEq] at same
  have firstUnits := plainUnits_layout face 0 _ (mergedPieces_fit first source short)
  have secondUnits := plainUnits_layout face 0 _ (mergedPieces_fit second source short)
  rw [mergedPieces, plainUnits_mergePlain] at firstUnits secondUnits
  rw [firstUnits, secondUnits]
  exact congrArg _ same.2

/-- A message is what all enabled rules make of its source, exactly if skipping the expression rule
is harmless there. -/
theorem parse_eq_parseUngated_iff (env : Env) (source : String) :
    (SkipsHarmlessly env source → parse env source = parseUngated env source) ∧
      (source.utf8ByteSize < 2 ^ 63 → parse env source = parseUngated env source →
        SkipsHarmlessly env source) := by
  constructor
  · intro harmless
    by_cases admitted :
        env.parseExpr = true → Rule.expression.triggeredBy source.toList = true
    · exact parse_eq_parseUngated admitted
    · obtain ⟨enabled, closed⟩ := Classical.not_imp.mp admitted
      have untriggered : Rule.expression.triggeredBy source.toList = false := by
        simpa using closed
      have diceless := diceless_of_untriggered untriggered
      have hides := harmless enabled untriggered
      rw [Rule.enabled_eq_all enabled] at hides
      rw [parse_eq_withoutExpression enabled untriggered, parseUngated,
        Rule.enabled_eq_all enabled, parseWith_eq_layout, parseWith_eq_layout, mergedPieces,
        mergedPieces, mergePlain_pieces_eq diceless hides]
  · intro short same enabled untriggered place visits falls
    rw [parse_eq_withoutExpression enabled untriggered, parseUngated,
      Rule.enabled_eq_all enabled] at same
    rw [Rule.enabled_eq_all enabled] at visits
    have diceless := diceless_of_untriggered untriggered
    exact hidesNoMarkup_of_visits diceless (plainUnits_eq_of_parseWith short same.symm) visits falls

/-- Without dice a link behind too many brackets is read, although all rules keep it as text. -/
theorem parse_ne_parseUngated_brackets :
    parse {} "(((((((((((((((((((((((((((((((((((((((((((((((((((((((((((((((([x](y)" ≠
      parseUngated {} "(((((((((((((((((((((((((((((((((((((((((((((((((((((((((((((((([x](y)" := by
  decide +kernel

end DiceChat
