import DiceChat.Message.Rule
import DiceChat.Proofs.Text.Runs

/-!
This file says which texts start with a web address and how far it reaches. The host and the
top-level part share characters with each other and with the tail, so an address has many splits
into these parts and the reader tries one after the other. One split is enough for a match, and
every split leads to the same end, because all characters of an address may stand in its tail.
-/

namespace DiceChat.Markup

open Text

/-- A run has at least one and at most so many characters, all of one class. -/
structure IsRun (accepts : Char → Bool) (most : Nat) (run : List Char) : Prop where
  filled : run ≠ []
  short : run.length ≤ most
  inside : ∀ character ∈ run, accepts character = true

/-- A run of one character is as short as any. -/
theorem IsRun.single {accepts : Char → Bool} {character : Char}
    (accepted : accepts character = true) (limit : Nat) :
    IsRun accepts (limit + 1) [character] :=
  ⟨List.cons_ne_nil _ _, Nat.le_add_left 1 limit, by simpa using accepted⟩

/-- A character in front of a run makes a longer run. -/
theorem IsRun.cons {accepts : Char → Bool} {most : Nat} {character : Char} {run : List Char}
    (accepted : accepts character = true) (isRun : IsRun accepts most run) :
    IsRun accepts (most + 1) (character :: run) :=
  ⟨List.cons_ne_nil _ _, Nat.succ_le_succ isRun.short,
    List.forall_mem_cons.mpr ⟨accepted, isRun.inside⟩⟩

/-- Whatever a greedy reader finds, the reader after it found behind some run. The run starts with
the character that was taken before. -/
theorem greedy_eq_some {accepts : Char → Bool} {next : Char → List Char → Option (List Char)}
    {limit : Nat} {first : Char} {input result : List Char} (accepted : accepts first = true)
    (found : greedy accepts next limit first input = some result) :
    ∃ run last rest, first :: input = run ++ rest ∧ IsRun accepts (limit + 1) run ∧
      run.getLast? = some last ∧ next last rest = some result := by
  have stops {limit : Nat} {first : Char} {input : List Char} (accepted : accepts first = true)
      (here : next first input = some result) :
      ∃ run last rest, first :: input = run ++ rest ∧ IsRun accepts (limit + 1) run ∧
        run.getLast? = some last ∧ next last rest = some result :=
    ⟨[first], first, input, rfl, .single accepted limit, rfl, here⟩
  induction limit generalizing first input with
  | zero => exact stops accepted (by simpa [greedy] using found)
  | succ limit ih =>
      cases input with
      | nil => exact stops accepted (by simpa [greedy] using found)
      | cons second others =>
          rw [greedy] at found
          split at found
          · rename_i continues
            rcases Option.or_eq_some_iff.mp found with longer | ⟨-, here⟩
            · obtain ⟨run, last, rest, whole, isRun, isLast, later⟩ := ih continues longer
              refine ⟨first :: run, last, rest, by rw [whole, List.cons_append],
                isRun.cons accepted, ?_, later⟩
              rw [List.getLast?_cons, isLast, Option.getD_some]
            · exact stops accepted here
          · exact stops accepted found

/-- A greedy reader finds something if the reader after it does behind some run. -/
theorem greedy_isSome {accepts : Char → Bool} {next : Char → List Char → Option (List Char)}
    {limit : Nat} {first last : Char} {others rest : List Char}
    (isRun : IsRun accepts (limit + 1) (first :: others))
    (isLast : (first :: others).getLast? = some last) (later : (next last rest).isSome = true) :
    (greedy accepts next limit first (others ++ rest)).isSome = true := by
  induction others generalizing limit first with
  | nil =>
      obtain rfl : first = last := by simpa using isLast
      -- The run ends here, and a longer attempt that fails does no harm.
      rw [List.nil_append]
      cases limit with
      | zero => exact later
      | succ limit =>
          cases rest with
          | nil => exact later
          | cons second more =>
              rw [greedy]
              split
              · rw [Option.isSome_or, later, Bool.or_true]
              · exact later
  | cons second others ih =>
      have short : others.length + 1 ≤ limit := Nat.le_of_succ_le_succ isRun.short
      obtain ⟨limit, rfl⟩ := Nat.exists_eq_succ_of_ne_zero (Nat.ne_of_gt (Nat.zero_lt_of_lt short))
      obtain ⟨-, inside⟩ := List.forall_mem_cons.mp isRun.inside
      have longer := ih ⟨List.cons_ne_nil second others, short, inside⟩
        (by rwa [List.getLast?_cons_cons] at isLast)
      rw [List.cons_append, greedy, if_pos (inside second List.mem_cons_self), Option.isSome_or,
        longer, Bool.true_or]

/-- Whatever a greedy reader from one character on finds, the reader after it found behind a run. -/
theorem greedyFromOne_eq_some {accepts : Char → Bool}
    {next : Char → List Char → Option (List Char)} {limit : Nat} {input result : List Char}
    (found : greedyFromOne accepts next limit input = some result) :
    ∃ run last rest, input = run ++ rest ∧ IsRun accepts (limit + 1) run ∧
      run.getLast? = some last ∧ next last rest = some result := by
  unfold greedyFromOne at found
  split at found
  · exact absurd found (by simp)
  · split at found
    · rename_i accepted
      exact greedy_eq_some accepted found
    · exact absurd found (by simp)

/-- A greedy reader from one character on finds something if the reader after it does behind a
run. -/
theorem greedyFromOne_isSome {accepts : Char → Bool}
    {next : Char → List Char → Option (List Char)} {limit : Nat} {last : Char}
    {run rest : List Char} (isRun : IsRun accepts (limit + 1) run)
    (isLast : run.getLast? = some last) (later : (next last rest).isSome = true) :
    (greedyFromOne accepts next limit (run ++ rest)).isSome = true := by
  obtain ⟨first, others, rfl⟩ := List.exists_cons_of_ne_nil isRun.filled
  rw [List.cons_append, greedyFromOne, if_pos (isRun.inside first List.mem_cons_self)]
  exact greedy_isSome isRun isLast later

/-- A text after a scheme splits into an optional `www.`, a host, a dot, a top-level part that ends
at a word boundary, and a rest. -/
structure AddressSplit (text www host top rest : List Char) : Prop where
  whole : text = www ++ (host ++ '.' :: (top ++ rest))
  optional : www = [] ∨ www = ['w', 'w', 'w', '.']
  isHost : IsRun isHostCharacter 256 host
  isTop : IsRun isTopCharacter 6 top
  boundary : ∀ last, top.getLast? = some last → isWordBoundary last rest = true

/-- An address starts with one of these. -/
def schemes : List (List Char) := ["https://".toList, "http://".toList]

/-- Every character of a host may stand in a tail. -/
theorem isTailCharacter_of_isHost {character : Char} (isHost : isHostCharacter character = true) :
    isTailCharacter character = true := by
  have marks : "-@:%._+~#=".toList ⊆ "-()@:%_+.~#?&/=".toList := by decide
  simp only [isHostCharacter, isTailCharacter, Bool.or_eq_true, List.contains_iff_mem] at isHost ⊢
  exact isHost.imp_right fun mark => marks mark

/-- Every character of a top-level part may stand in a tail. -/
theorem isTailCharacter_of_isTop {character : Char} (isTop : isTopCharacter character = true) :
    isTailCharacter character = true := by
  have marks : "()".toList ⊆ "-()@:%_+.~#?&/=".toList := by decide
  simp only [isTopCharacter, isTailCharacter, Bool.or_eq_true, List.contains_iff_mem] at isTop ⊢
  exact isTop.imp_right fun mark => marks mark

/-- All of a split but its rest may stand in a tail, so each split leads to the same end. -/
theorem AddressSplit.dropWhile_eq {text www host top rest : List Char}
    (split : AddressSplit text www host top rest) :
    rest.dropWhile isTailCharacter = text.dropWhile isTailCharacter := by
  have inTail : ∀ character ∈ www ++ (host ++ '.' :: top), isTailCharacter character = true := by
    simp only [List.mem_append, List.mem_cons]
    rintro character (inWww | inHost | rfl | inTop)
    · rcases split.optional with rfl | rfl
      · exact absurd inWww List.not_mem_nil
      · have letters : "www.".toList.all isTailCharacter = true := by decide
        exact List.all_eq_true.mp letters character inWww
    · exact isTailCharacter_of_isHost (split.isHost.inside character inHost)
    · decide
    · exact isTailCharacter_of_isTop (split.isTop.inside character inTop)
  have whole : text = www ++ (host ++ '.' :: top) ++ rest := by simp [split.whole]
  rw [whole, List.dropWhile_append_of_pos inTail]

/-- A host that is read without the prefix is a split, and the rest of it loses its tail. -/
theorem urlHost_split {text result : List Char} (found : urlHost text = some result) :
    ∃ host top rest, AddressSplit text [] host top rest ∧
      result = rest.dropWhile isTailCharacter := by
  obtain ⟨host, last, afterHost, rfl, isHost, -, behind⟩ := greedyFromOne_eq_some found
  unfold urlTop at behind
  split at behind
  · rename_i afterDot
    obtain ⟨top, last, rest, rfl, isTop, isLast, isTail⟩ := greedyFromOne_eq_some behind
    unfold urlTail at isTail
    split at isTail
    · rename_i boundary
      obtain rfl := Option.some.inj isTail
      refine ⟨host, top, rest, ⟨rfl, .inl rfl, isHost, isTop, fun other isOther => ?_⟩, rfl⟩
      rwa [← Option.some.inj (isLast.symm.trans isOther)]
    · exact absurd isTail (by simp)
  · exact absurd behind (by simp)

/-- A host is read wherever there is a split. -/
theorem AddressSplit.urlHost_isSome {text www host top rest : List Char}
    (split : AddressSplit text www host top rest) :
    (urlHost (host ++ '.' :: (top ++ rest))).isSome = true := by
  apply greedyFromOne_isSome split.isHost (List.getLast?_eq_some_getLast split.isHost.filled)
  have isLast := List.getLast?_eq_some_getLast split.isTop.filled
  apply greedyFromOne_isSome split.isTop isLast
  rw [urlTail, if_pos (split.boundary _ isLast), Option.isSome_some]

/-- A text after a scheme is an address exactly if it has a split, and the address reaches as far as
a tail from the start of that text would. -/
theorem urlRest_eq_some_iff (text result : List Char) :
    urlRest text = some result ↔
      (∃ www host top rest, AddressSplit text www host top rest) ∧
        result = text.dropWhile isTailCharacter := by
  have sound {result : List Char} (found : urlRest text = some result) :
      (∃ www host top rest, AddressSplit text www host top rest) ∧
        result = text.dropWhile isTailCharacter := by
    rcases Option.or_eq_some_iff.mp found with withPrefix | ⟨-, plain⟩
    · obtain ⟨after, isWww, isHost⟩ := Option.bind_eq_some_iff.mp withPrefix
      obtain ⟨host, top, rest, split, rfl⟩ := urlHost_split isHost
      have extended : AddressSplit text ['w', 'w', 'w', '.'] host top rest := by
        refine ⟨?_, .inr rfl, split.isHost, split.isTop, split.boundary⟩
        rw [expect_eq_some.mp isWww, split.whole, List.nil_append]
      exact ⟨⟨_, host, top, rest, extended⟩, extended.dropWhile_eq⟩
    · obtain ⟨host, top, rest, split, rfl⟩ := urlHost_split plain
      exact ⟨⟨_, host, top, rest, split⟩, split.dropWhile_eq⟩
  constructor
  · exact sound
  · rintro ⟨⟨www, host, top, rest, split⟩, rfl⟩
    have found : (urlRest text).isSome = true := by
      have isHost := split.urlHost_isSome
      rw [urlRest, Option.isSome_or, Bool.or_eq_true, split.whole]
      rcases split.optional with rfl | rfl
      · exact .inr isHost
      · rw [expect_eq_some.mpr rfl, Option.bind_some]
        exact .inl isHost
    obtain ⟨result, isResult⟩ := Option.isSome_iff_exists.mp found
    rw [isResult, (sound isResult).2]

theorem schemes_eq : schemes =
    [['h', 't', 't', 'p', 's', ':', '/', '/'], ['h', 't', 't', 'p', ':', '/', '/']] := by decide

/-- What follows a scheme is found behind it. -/
theorem afterScheme_eq_some_iff (input after : List Char) :
    afterScheme input = some after ↔ ∃ scheme ∈ schemes, input = scheme ++ after := by
  simp only [schemes_eq, List.mem_cons, List.not_mem_nil, or_false, exists_eq_or_imp,
    exists_eq_left]
  rw [afterScheme, Option.or_eq_some_iff, expect_eq_some, expect_eq_some]
  refine or_congr Iff.rfl (and_iff_right_of_imp ?_)
  rintro rfl
  rfl

/-- An address is a scheme with the longest run of tail characters behind it, and it is there
exactly if the text behind the scheme has a split. -/
theorem url_eq_some_iff (input address rest : List Char) :
    url input = some (address, rest) ↔ ∃ scheme ∈ schemes, ∃ text, input = scheme ++ text ∧
      (∃ www host top last, AddressSplit text www host top last) ∧
      address = scheme ++ text.takeWhile isTailCharacter ∧
      rest = text.dropWhile isTailCharacter := by
  have isBefore (scheme text : List Char) :
      before (scheme ++ text) (text.dropWhile isTailCharacter) =
        scheme ++ text.takeWhile isTailCharacter := by
    have whole : scheme ++ text =
        scheme ++ text.takeWhile isTailCharacter ++ text.dropWhile isTailCharacter := by simp
    exact (congrArg (before · _) whole).trans (before_append _ _)
  simp only [url, Option.map_eq_some_iff, Option.bind_eq_some_iff, afterScheme_eq_some_iff,
    urlRest_eq_some_iff, Prod.mk.injEq]
  constructor
  · rintro ⟨_, ⟨text, ⟨scheme, member, rfl⟩, split, rfl⟩, rfl, rfl⟩
    exact ⟨scheme, member, text, rfl, split, isBefore scheme text, rfl⟩
  · rintro ⟨scheme, member, text, rfl, split, rfl, rfl⟩
    exact ⟨_, ⟨text, ⟨scheme, member, rfl⟩, split, rfl⟩, isBefore scheme text, rfl⟩

/-- An address starts with one of the two schemes. -/
theorem url_scheme {input : List Char} {found : List Char × List Char}
    (read : url input = some found) :
    ∃ later, input = ['h', 't', 't', 'p', 's', ':', '/', '/'] ++ later ∨
      input = ['h', 't', 't', 'p', ':', '/', '/'] ++ later := by
  obtain ⟨scheme, member, text, whole, -⟩ := (url_eq_some_iff _ _ _).mp read
  simp only [schemes_eq, List.mem_cons, List.not_mem_nil, or_false] at member
  rcases member with rfl | rfl
  · exact ⟨text, .inl whole⟩
  · exact ⟨text, .inr whole⟩

/-- Both schemes have the same first letter. -/
theorem url_head {input : List Char} {found : List Char × List Char}
    (read : url input = some found) : ∃ later, input = 'h' :: later := by
  obtain ⟨later, whole | whole⟩ := url_scheme read
  · exact ⟨_, whole⟩
  · exact ⟨_, whole⟩

/-- An address is a front of the text. -/
theorem url_split {input address rest : List Char} (found : url input = some (address, rest)) :
    input = address ++ rest ∧ address ≠ [] := by
  obtain ⟨scheme, member, text, rfl, -, rfl, rfl⟩ := (url_eq_some_iff _ _ _).mp found
  refine ⟨by simp, fun empty => ?_⟩
  rw [(List.append_eq_nil_iff.mp empty).1] at member
  exact absurd member (by decide)

/-- The rule for addresses matches exactly if a scheme and some split follow each other at the start
of the text. Whatever the split is, the rule then takes the scheme and the longest run of
characters that may stand in a tail: this is the text it shows, the target of its link, and what its
entity covers. -/
theorem autoUrl_exact (face : UInt32) (start : Nat) (input : List Char) :
    ((Rule.autoUrl.read input).isSome = true ↔
        ∃ scheme ∈ schemes, ∃ www host top rest text,
          input = scheme ++ text ∧ AddressSplit text www host top rest) ∧
      ∀ piece rest, Rule.autoUrl.read input = some (piece, rest) →
        ∃ scheme ∈ schemes, ∃ text, input = scheme ++ text ∧
          rest = text.dropWhile isTailCharacter ∧
          piece.source = scheme ++ text.takeWhile isTailCharacter ∧
          textOf [piece] = piece.source ∧
          layout face start [piece] =
            [⟨UInt64.ofNat start, UInt64.ofNat (units piece.source),
              .link (String.ofList piece.source)⟩] := by
  constructor
  · rw [Rule.read, Option.isSome_map, Option.isSome_iff_exists]
    simp only [Prod.exists, url_eq_some_iff]
    constructor
    · rintro ⟨_, _, scheme, member, text, whole, ⟨www, host, top, rest, split⟩, -, -⟩
      exact ⟨scheme, member, www, host, top, rest, text, whole, split⟩
    · rintro ⟨scheme, member, www, host, top, rest, text, whole, split⟩
      exact ⟨_, _, scheme, member, text, whole, ⟨www, host, top, rest, split⟩, rfl, rfl⟩
  · intro piece rest found
    obtain ⟨⟨address, later⟩, isUrl, pair⟩ := Option.map_eq_some_iff.mp found
    obtain ⟨rfl, rfl⟩ := Prod.mk.injEq .. ▸ pair
    obtain ⟨scheme, member, text, whole, -, isAddress, isRest⟩ := (url_eq_some_iff _ _ _).mp isUrl
    exact ⟨scheme, member, text, whole, isRest, isAddress, by simp [textOf], rfl⟩

/-- Each dot of this address could end the host, and the address ends before the comma anyway. -/
theorem autoUrl_exact_overlapping :
    Rule.autoUrl.read "https://www.a.b.c(1), ok".toList =
        some (⟨"https://www.a.b.c(1)".toList, "https://www.a.b.c(1)".toList,
          .link "https://www.a.b.c(1)".toList⟩, ", ok".toList) ∧
      ∃ scheme ∈ schemes, ∃ text, "https://www.a.b.c(1), ok".toList = scheme ++ text ∧
        ", ok".toList = text.dropWhile isTailCharacter ∧
        "https://www.a.b.c(1)".toList = scheme ++ text.takeWhile isTailCharacter ∧
        textOf [⟨"https://www.a.b.c(1)".toList, "https://www.a.b.c(1)".toList,
          .link "https://www.a.b.c(1)".toList⟩] = "https://www.a.b.c(1)".toList ∧
        layout 20 3 [⟨"https://www.a.b.c(1)".toList, "https://www.a.b.c(1)".toList,
            .link "https://www.a.b.c(1)".toList⟩] =
          [⟨3, UInt64.ofNat (units "https://www.a.b.c(1)".toList),
            .link (String.ofList "https://www.a.b.c(1)".toList)⟩] := by
  have found : Rule.autoUrl.read "https://www.a.b.c(1), ok".toList =
      some (⟨"https://www.a.b.c(1)".toList, "https://www.a.b.c(1)".toList,
        .link "https://www.a.b.c(1)".toList⟩, ", ok".toList) := by decide +kernel
  exact ⟨found, (autoUrl_exact 20 3 _).2 _ _ found⟩

end DiceChat.Markup
