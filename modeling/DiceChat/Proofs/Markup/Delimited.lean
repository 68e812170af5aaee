import DiceChat.Message.Rule

/-!
This file says which texts start with strong text or with a link. The content of strong text may
hold stars, so there can be several places to close it, and the first legal one counts. The parts
of a link end at the first bracket that closes them, so there is one way to read it.
-/

namespace DiceChat.Markup

open Text

/-- Strong text stands on one line between two pairs of stars and is not empty. -/
structure StrongSplit (input content rest : List Char) : Prop where
  whole : input = '*' :: '*' :: (content ++ '*' :: '*' :: rest)
  filled : content ≠ []
  inLine : ∀ character ∈ content, isLineBreak character = false

/-- What closes at a pair of stars stands before it on one line. -/
theorem closeStrong_sound {input content rest : List Char}
    (found : closeStrong input = some (content, rest)) :
    input = content ++ '*' :: '*' :: rest ∧
      ∀ character ∈ content, isLineBreak character = false := by
  fun_induction closeStrong input generalizing content with
  | case1 => exact absurd found (by simp)
  | case2 later =>
      obtain ⟨rfl, rfl⟩ := Prod.mk.injEq .. ▸ Option.some.inj found
      exact ⟨rfl, fun _ member => absurd member List.not_mem_nil⟩
  | case3 character later notClosing lineBreak => exact absurd found (by simp)
  | case4 character later notClosing notBreak ih =>
      obtain ⟨⟨tail, last⟩, closed, pair⟩ := Option.map_eq_some_iff.mp found
      obtain ⟨rfl, rfl⟩ := Prod.mk.injEq .. ▸ pair
      obtain ⟨whole, inLine⟩ := ih closed
      rw [whole, List.cons_append]
      exact ⟨rfl, List.forall_mem_cons.mpr ⟨by simpa using notBreak, inLine⟩⟩

/-- A text on one line before a pair of stars is closed there or earlier. -/
theorem closeStrong_first {content : List Char}
    (inLine : ∀ character ∈ content, isLineBreak character = false) (rest : List Char) :
    ∃ first later, closeStrong (content ++ '*' :: '*' :: rest) = some (first, later) ∧
      first.length ≤ content.length := by
  generalize whole : content ++ '*' :: '*' :: rest = input
  fun_induction closeStrong input generalizing content with
  | case1 => exact absurd whole (by simp)
  | case2 later => exact ⟨[], later, rfl, Nat.zero_le _⟩
  | case3 character later notClosing lineBreak =>
      cases content with
      | nil =>
          obtain ⟨rfl, rfl⟩ := List.cons.injEq .. ▸ whole
          exact absurd rfl (notClosing rest rfl)
      | cons head tail =>
          obtain ⟨rfl, rfl⟩ := List.cons.injEq .. ▸ whole
          exact absurd (inLine head List.mem_cons_self) (by simp [lineBreak])
  | case4 character later notClosing notBreak ih =>
      cases content with
      | nil =>
          obtain ⟨rfl, rfl⟩ := List.cons.injEq .. ▸ whole
          exact absurd rfl (notClosing rest rfl)
      | cons head tail =>
          obtain ⟨rfl, rfl⟩ := List.cons.injEq .. ▸ whole
          obtain ⟨first, last, closed, short⟩ := ih (List.forall_mem_cons.mp inLine).2 rfl
          rw [closed]
          exact ⟨head :: first, last, rfl, Nat.succ_le_succ short⟩

/-- Strong text is a split. -/
theorem strong_split {input content rest : List Char}
    (found : strong input = some (content, rest)) : StrongSplit input content rest := by
  unfold strong at found
  split at found
  · rename_i character later
    split at found
    · exact absurd found (by simp)
    · rename_i notBreak
      obtain ⟨⟨tail, last⟩, closed, pair⟩ := Option.map_eq_some_iff.mp found
      obtain ⟨rfl, rfl⟩ := Prod.mk.injEq .. ▸ pair
      obtain ⟨whole, inLine⟩ := closeStrong_sound closed
      rw [whole]
      exact ⟨rfl, List.cons_ne_nil character tail,
        List.forall_mem_cons.mpr ⟨by simpa using notBreak, inLine⟩⟩
  · exact absurd found (by simp)

/-- Where there is a split there is strong text, and its content is no longer. -/
theorem StrongSplit.first {input content rest : List Char}
    (split : StrongSplit input content rest) :
    ∃ first later, strong input = some (first, later) ∧ first.length ≤ content.length := by
  obtain ⟨character, others, rfl⟩ := List.exists_cons_of_ne_nil split.filled
  obtain ⟨notBreak, inLine⟩ := List.forall_mem_cons.mp split.inLine
  obtain ⟨first, later, closed, short⟩ := closeStrong_first inLine rest
  rw [split.whole, List.cons_append, strong, if_neg (by simp [notBreak]), closed]
  exact ⟨character :: first, later, rfl, Nat.succ_le_succ short⟩

/-- Strong text is the split with the shortest content. -/
theorem strong_eq_some_iff (input content rest : List Char) :
    strong input = some (content, rest) ↔ StrongSplit input content rest ∧
      ∀ other later, StrongSplit input other later → content.length ≤ other.length := by
  constructor
  · intro found
    refine ⟨strong_split found, fun other later split => ?_⟩
    obtain ⟨first, last, isFirst, short⟩ := split.first
    obtain ⟨rfl, -⟩ := Prod.mk.injEq .. ▸ Option.some.inj (found.symm.trans isFirst)
    exact short
  · rintro ⟨split, shortest⟩
    obtain ⟨first, last, isFirst, short⟩ := split.first
    have found := strong_split isFirst
    -- Two contents of one length are the same front of the text behind the first stars.
    have whole := found.whole.symm.trans split.whole
    obtain ⟨rfl, pair⟩ := List.append_inj (by simpa using whole)
      (Nat.le_antisymm short (shortest first last found))
    obtain rfl : last = rest := by simpa using pair
    exact isFirst

/-- A part of a link is not empty and stays on one line before its closing bracket. -/
structure Encloses (close : Char) (part : List Char) : Prop where
  filled : part ≠ []
  unclosed : close ∉ part
  inLine : '\n' ∉ part

/-- A link is a title in square brackets with a target in parentheses right behind it. -/
structure LinkSplit (input title href rest : List Char) : Prop where
  whole : input = '[' :: (title ++ ']' :: '(' :: (href ++ ')' :: rest))
  isTitle : Encloses ']' title
  isHref : Encloses ')' href

/-- A run closes at the first closing character, if no line feed stands before it. -/
theorem closeWith_eq_some_iff (close : Char) (input inside rest : List Char) :
    closeWith close input = some (inside, rest) ↔
      input = inside ++ close :: rest ∧ close ∉ inside ∧ '\n' ∉ inside := by
  induction input generalizing inside rest with
  | nil => simp [closeWith]
  | cons character later ih =>
      rw [closeWith]
      split
      · rename_i closes
        cases inside with
        | nil => simp [closes]
        | cons head tail =>
            simp only [Option.some.injEq, Prod.mk.injEq, reduceCtorEq, false_and, List.cons_append,
              List.cons.injEq, List.mem_cons, not_or, false_iff]
            rintro ⟨⟨rfl, -⟩, ⟨notClose, -⟩, -⟩
            exact notClose closes.symm
      · rename_i notClosing
        cases inside with
        | nil =>
            split <;> simp [notClosing]
        | cons head tail =>
            split
            · rename_i lineFeed
              simp only [reduceCtorEq, List.cons_append, List.cons.injEq, List.mem_cons, not_or,
                false_iff]
              rintro ⟨⟨rfl, -⟩, -, ⟨notFeed, -⟩⟩
              exact notFeed lineFeed.symm
            · rename_i notFeed
              simp only [Option.map_eq_some_iff, Prod.exists, ih, Prod.mk.injEq, List.cons.injEq,
                List.cons_append, List.mem_cons, not_or]
              constructor
              · rintro ⟨_, _, ⟨whole, unclosed, inLine⟩, ⟨rfl, rfl⟩, rfl⟩
                exact ⟨⟨rfl, whole⟩, ⟨Ne.symm notClosing, unclosed⟩, Ne.symm notFeed, inLine⟩
              · rintro ⟨⟨rfl, whole⟩, ⟨-, unclosed⟩, -, inLine⟩
                exact ⟨tail, rest, ⟨whole, unclosed, inLine⟩, ⟨rfl, rfl⟩, rfl⟩

/-- A link is the one split that there is. -/
theorem link_eq_some_iff (input : List Char) (found : Link) (rest : List Char) :
    link input = some (found, rest) ↔ LinkSplit input found.title found.href rest := by
  constructor
  · intro read
    unfold link at read
    split at read
    · split at read
      · rename_i title later isTitle
        split at read
        · rename_i href last isHref
          split at read
          · exact absurd read (by simp)
          · rename_i filled
            obtain ⟨rfl, rfl⟩ := Prod.mk.injEq .. ▸ Option.some.inj read
            obtain ⟨rfl, titleOpen, titleInLine⟩ := (closeWith_eq_some_iff _ _ _ _).mp isTitle
            obtain ⟨rfl, hrefOpen, hrefInLine⟩ := (closeWith_eq_some_iff _ _ _ _).mp isHref
            obtain ⟨someTitle, someHref⟩ := not_or.mp filled
            exact ⟨rfl, ⟨someTitle, titleOpen, titleInLine⟩, ⟨someHref, hrefOpen, hrefInLine⟩⟩
        · exact absurd read (by simp)
      · exact absurd read (by simp)
    · exact absurd read (by simp)
  · rintro ⟨rfl, isTitle, isHref⟩
    have hrefCloses := (closeWith_eq_some_iff ')' _ found.href rest).mpr
      ⟨rfl, isHref.unclosed, isHref.inLine⟩
    have titleCloses := (closeWith_eq_some_iff ']' _ found.title
      ('(' :: (found.href ++ ')' :: rest))).mpr ⟨rfl, isTitle.unclosed, isTitle.inLine⟩
    simp only [link, titleCloses, hrefCloses]
    exact if_neg (not_or.mpr ⟨isTitle.filled, isHref.filled⟩)

/-- What is read as a link is a split. -/
theorem link_split {input rest : List Char} {found : Link}
    (read : link input = some (found, rest)) : LinkSplit input found.title found.href rest :=
  (link_eq_some_iff input found rest).mp read

/-- A text starts with at most one link. -/
theorem LinkSplit.unique {input title href rest : List Char}
    (split : LinkSplit input title href rest) {title' href' rest' : List Char}
    (other : LinkSplit input title' href' rest') :
    title = title' ∧ href = href' ∧ rest = rest' := by
  have found := (link_eq_some_iff input ⟨title, href⟩ rest).mpr split
  have alsoFound := (link_eq_some_iff input ⟨title', href'⟩ rest').mpr other
  obtain ⟨same, isRest⟩ := Prod.mk.injEq .. ▸ Option.some.inj (found.symm.trans alsoFound)
  obtain ⟨isTitle, isHref⟩ := Link.mk.injEq .. ▸ same
  exact ⟨isTitle, isHref, isRest⟩

/-- The rule for strong text takes the split with the shortest content and shows that content. -/
theorem strong_read_eq_some_iff (input rest : List Char) (piece : Piece) :
    Rule.strong.read input = some (piece, rest) ↔
      ∃ content, StrongSplit input content rest ∧
        (∀ other later, StrongSplit input other later → content.length ≤ other.length) ∧
        piece = ⟨['*', '*'] ++ content ++ ['*', '*'], content, .strong⟩ := by
  have isBefore {content : List Char} (split : StrongSplit input content rest) :
      before input rest = ['*', '*'] ++ content ++ ['*', '*'] := by
    have whole : input = (['*', '*'] ++ content ++ ['*', '*']) ++ rest := by simp [split.whole]
    rw [whole, before_append]
  simp only [Rule.read, Option.map_eq_some_iff, Prod.exists, Prod.mk.injEq, strong_eq_some_iff]
  constructor
  · rintro ⟨content, _, ⟨split, shortest⟩, rfl, rfl⟩
    exact ⟨content, split, shortest, by rw [isBefore split]⟩
  · rintro ⟨content, split, shortest, rfl⟩
    exact ⟨content, rest, ⟨split, shortest⟩, by rw [isBefore split], rfl⟩

/-- The rule for links takes the split and shows its title with a link to its target. -/
theorem link_read_eq_some_iff (input rest : List Char) (piece : Piece) :
    Rule.link.read input = some (piece, rest) ↔
      ∃ title href, LinkSplit input title href rest ∧
        piece = ⟨['['] ++ title ++ [']', '('] ++ href ++ [')'], title, .link href⟩ := by
  have isBefore {title href : List Char} (split : LinkSplit input title href rest) :
      before input rest = ['['] ++ title ++ [']', '('] ++ href ++ [')'] := by
    have whole : input = (['['] ++ title ++ [']', '('] ++ href ++ [')']) ++ rest := by
      simp [split.whole]
    rw [whole, before_append]
  simp only [Rule.read, Option.map_eq_some_iff, Prod.exists, Prod.mk.injEq, link_eq_some_iff]
  constructor
  · rintro ⟨found, _, split, rfl, rfl⟩
    exact ⟨_, _, split, by rw [isBefore split]⟩
  · rintro ⟨title, href, split, rfl⟩
    exact ⟨⟨title, href⟩, rest, split, by rw [isBefore split], rfl⟩

/-- The rule for strong text matches exactly where there is a split, takes the one with the shortest
content and shows that content. The rule for links matches exactly where there is a split, which is
the only one, and shows its title with a link to its target. -/
theorem delimited_exact (input : List Char) :
    ((Rule.strong.read input).isSome = true ↔ ∃ content rest, StrongSplit input content rest) ∧
      (∀ piece rest, Rule.strong.read input = some (piece, rest) ↔
        ∃ content, StrongSplit input content rest ∧
          (∀ other later, StrongSplit input other later → content.length ≤ other.length) ∧
          piece = ⟨['*', '*'] ++ content ++ ['*', '*'], content, .strong⟩) ∧
      ((Rule.link.read input).isSome = true ↔ ∃ title href rest, LinkSplit input title href rest) ∧
      (∀ piece rest, Rule.link.read input = some (piece, rest) ↔
        ∃ title href, LinkSplit input title href rest ∧
          piece = ⟨['['] ++ title ++ [']', '('] ++ href ++ [')'], title, .link href⟩) ∧
      ∀ title href rest title' href' rest', LinkSplit input title href rest →
        LinkSplit input title' href' rest' → title = title' ∧ href = href' ∧ rest = rest' := by
  refine ⟨?_, fun piece rest => strong_read_eq_some_iff input rest piece, ?_,
    fun piece rest => link_read_eq_some_iff input rest piece,
    fun _ _ _ _ _ _ split other => split.unique other⟩
  · rw [Rule.read, Option.isSome_map, Option.isSome_iff_exists]
    constructor
    · rintro ⟨⟨content, rest⟩, found⟩
      exact ⟨content, rest, strong_split found⟩
    · rintro ⟨content, rest, split⟩
      obtain ⟨first, later, found, -⟩ := split.first
      exact ⟨_, found⟩
  · rw [Rule.read, Option.isSome_map, Option.isSome_iff_exists]
    constructor
    · rintro ⟨⟨found, rest⟩, isLink⟩
      exact ⟨_, _, rest, link_split isLink⟩
    · rintro ⟨title, href, rest, split⟩
      exact ⟨_, (link_eq_some_iff _ ⟨title, href⟩ rest).mpr split⟩

/-- The third star belongs to the content, and so does the second opening bracket to the title. -/
theorem delimited_exact_crowded :
    (∃ content, StrongSplit "***a***".toList content ['*'] ∧
        (∀ other later, StrongSplit "***a***".toList other later →
          content.length ≤ other.length) ∧
        (⟨"***a**".toList, "*a".toList, .strong⟩ : Piece) =
          ⟨['*', '*'] ++ content ++ ['*', '*'], content, .strong⟩) ∧
      LinkSplit "[[a](u)](v)".toList "[a".toList "u".toList "](v)".toList ∧
      ∀ title href rest, LinkSplit "[[a](u)](v)".toList title href rest →
        "[a".toList = title ∧ "u".toList = href ∧ "](v)".toList = rest := by
  obtain ⟨-, strongReads, -⟩ := delimited_exact "***a***".toList
  obtain ⟨-, -, -, -, unique⟩ := delimited_exact "[[a](u)](v)".toList
  have isLink : LinkSplit "[[a](u)](v)".toList "[a".toList "u".toList "](v)".toList := by
    refine ⟨by decide, ⟨by decide, by decide, by decide⟩, ⟨by decide, by decide, by decide⟩⟩
  exact ⟨(strongReads _ _).mp (by decide), isLink, fun title href rest => unique _ _ _ _ _ _ isLink⟩

end DiceChat.Markup
