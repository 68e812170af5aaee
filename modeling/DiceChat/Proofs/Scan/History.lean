import DiceChat.Proofs.Scan.Sharing

/-!
This file follows all cursors that are ever made in one run. They form a tree over the shared
output. An append writes over what cursors on other branches own, so it outdates them, and only the
cursors on the way to its own stay live. As long as appends start at live cursors, every live cursor
reads exactly what was appended on the way to it.
-/

namespace DiceChat.Scan

/-- A cursor is made from an earlier one in one of these ways. -/
inductive Making where
  | append (added : List Char)
  | advance (count : Nat)
  | atDepth (depth : Nat)
  deriving DecidableEq, Repr

namespace Making

/-- A cursor is not made if a cut does not fit. -/
def make : Making → Cursor → Output → Option (Cursor × Output)
  | .append added, cursor, output => cursor.append added output
  | .advance count, cursor, output => (cursor.advance count).map fun next => (next, output)
  | .atDepth depth, cursor, output => some (cursor.atDepth depth, output)

/-- These texts are appended. -/
def texts : Making → List (List Char)
  | .append added => [added]
  | .advance _ => []
  | .atDepth _ => []

def isAppend : Making → Bool
  | .append _ => true
  | .advance _ => false
  | .atDepth _ => false

end Making

/-- A made cursor has ancestors, which it was made from one after the other, and the texts that were
appended on the way to it. It is live until an append outdates it. -/
structure Made where
  cursor : Cursor
  ancestors : List Nat
  texts : List (List Char)
  live : Bool
  deriving DecidableEq, Repr

namespace Made

/-- This is everything appended on the way to a cursor. -/
def text (made : Made) : List Char := made.texts.flatten

/-- A cursor that is not kept is no longer live. -/
def keepIf (keep : Bool) (made : Made) : Made := { made with live := made.live && keep }

/-- A cursor that is made from another one is live if that one is. -/
def child (origin : Nat) (making : Making) (cursor : Cursor) (start : Made) : Made :=
  ⟨cursor, origin :: start.ancestors, start.texts ++ making.texts, start.live⟩

/-- A made cursor should stand for this state. -/
def state (made : Made) : State := ⟨made.text, made.cursor.rest, made.cursor.depth⟩

end Made

/-- A history has the cursors of a run in the order in which they were made, over their output. -/
structure History where
  made : List Made
  output : Output
  deriving DecidableEq, Repr

namespace History

/-- A run starts with one cursor, and nothing is written. -/
def ofSource (source : List Char) : History := ⟨[⟨.ofSource source, [], [], true⟩], {}⟩

/-- An append keeps only its origin and the ancestors of that. -/
def keeps (making : Making) (origin : Nat) (ancestors : List Nat) (id : Nat) : Bool :=
  !making.isAppend || id == origin || ancestors.contains id

/-- This makes a cursor from the one with a given number. -/
def extend (history : History) (origin : Nat) (making : Making) : Option History :=
  history.made[origin]?.bind fun start =>
    (making.make start.cursor history.output).map fun (cursor, output) =>
      ⟨history.made.mapIdx (fun id other =>
          other.keepIf (keeps making origin start.ancestors id)) ++
        [start.child origin making cursor], output⟩

/-- A cursor with this number was made and is live. -/
def IsLive (history : History) (id : Nat) : Prop :=
  ∃ made, history.made[id]? = some made ∧ made.live = true

/-- A history is disciplined if every append in it started at a live cursor. -/
inductive Disciplined (source : List Char) : History → Prop where
  | start : Disciplined source (ofSource source)
  | extend {history next : History} (earlier : Disciplined source history) (origin : Nat)
      (making : Making) (allowed : making.isAppend = true → history.IsLive origin)
      (extended : history.extend origin making = some next) : Disciplined source next

/-- In a sound history every cursor stands for the state with its own text. The output starts with
the text of each live cursor, and the text of a cursor with the text of each of its ancestors. -/
structure Sound (history : History) : Prop where
  fits : ∀ made ∈ history.made, made.cursor = made.state.cursor
  kept : ∀ made ∈ history.made, made.live = true → made.text <+: history.output.text
  lineage : ∀ made ∈ history.made, ∀ id ∈ made.ancestors,
    ∃ ancestor, history.made[id]? = some ancestor ∧ ancestor.text <+: made.text

/-- The first cursor of a run reads the empty text. -/
theorem sound_ofSource (source : List Char) : (ofSource source).Sound := by
  refine ⟨?_, ?_, ?_⟩ <;> intro made member <;> obtain rfl := List.mem_singleton.mp member
  · rfl
  · exact fun _ => List.prefix_refl _
  · exact fun _ none => absurd none List.not_mem_nil

end History

/-- Only an append adds text. -/
theorem Making.texts_eq_nil {making : Making} (noAppend : making.isAppend ≠ true) :
    making.texts = [] := by
  cases making with
  | append added => exact absurd rfl noAppend
  | advance count => rfl
  | atDepth depth => rfl

@[simp] theorem Made.text_child (start : Made) (origin : Nat) (making : Making) (cursor : Cursor) :
    (start.child origin making cursor).text = start.text ++ making.texts.flatten :=
  List.flatten_append

/-- A cursor made from one that stands for a state stands for a state with the appended text. -/
theorem Making.cursor_eq {making : Making} {state : State} {cursor : Cursor}
    {output written : Output} (front : making.isAppend = true → state.text <+: output.text)
    (isMade : making.make state.cursor output = some (cursor, written)) :
    cursor = State.cursor ⟨state.text ++ making.texts.flatten, cursor.rest, cursor.depth⟩ := by
  cases making with
  | append added =>
      rw [make, State.append_cursor (front rfl)] at isMade
      obtain ⟨rfl, -⟩ := Prod.mk.injEq .. ▸ Option.some.inj isMade
      simp [texts, State.cursor]
  | advance count =>
      obtain ⟨next, advanced, pair⟩ := Option.map_eq_some_iff.mp isMade
      obtain ⟨rfl, -⟩ := Prod.mk.injEq .. ▸ pair
      obtain ⟨parts, -, rfl⟩ := Option.map_eq_some_iff.mp advanced
      simp [texts, State.cursor]
  | atDepth depth =>
      obtain ⟨rfl, -⟩ := Prod.mk.injEq .. ▸ Option.some.inj isMade
      simp [texts, State.cursor, Cursor.atDepth]

/-- An append leaves its text in the output, and nothing else changes the output. -/
theorem Making.output_eq {making : Making} {state : State} {cursor : Cursor}
    {output written : Output} (front : making.isAppend = true → state.text <+: output.text)
    (isMade : making.make state.cursor output = some (cursor, written)) :
    written.text =
      if making.isAppend then state.text ++ making.texts.flatten else output.text := by
  cases making with
  | append added =>
      rw [make, State.append_cursor (front rfl)] at isMade
      obtain ⟨-, rfl⟩ := Prod.mk.injEq .. ▸ Option.some.inj isMade
      simp [texts, isAppend]
  | advance count =>
      obtain ⟨next, -, pair⟩ := Option.map_eq_some_iff.mp isMade
      obtain ⟨-, rfl⟩ := Prod.mk.injEq .. ▸ pair
      rfl
  | atDepth depth =>
      obtain ⟨-, rfl⟩ := Prod.mk.injEq .. ▸ Option.some.inj isMade
      rfl

namespace History

/-- A longer history has the earlier cursors under their numbers, some of them outdated, and one new
cursor. -/
theorem extend_cases {history next : History} {origin : Nat} {making : Making}
    (extended : history.extend origin making = some next) :
    ∃ start cursor, history.made[origin]? = some start ∧
      making.make start.cursor history.output = some (cursor, next.output) ∧
      next.made =
        history.made.mapIdx (fun id other =>
            other.keepIf (keeps making origin start.ancestors id)) ++
          [start.child origin making cursor] := by
  obtain ⟨start, isStart, isNext⟩ := Option.bind_eq_some_iff.mp extended
  obtain ⟨⟨cursor, output⟩, isMade, rfl⟩ := Option.map_eq_some_iff.mp isNext
  exact ⟨start, cursor, isStart, isMade, rfl⟩

/-- An earlier cursor keeps its number in a longer history, and its text. -/
theorem getElem?_of_extend {history next : History} {origin : Nat} {making : Making}
    (extended : history.extend origin making = some next) {id : Nat} {made : Made}
    (isMade : history.made[id]? = some made) :
    ∃ later, next.made[id]? = some later ∧ later.text = made.text := by
  obtain ⟨start, cursor, -, -, whole⟩ := extend_cases extended
  have older : (history.made.mapIdx fun id other =>
      other.keepIf (keeps making origin start.ancestors id))[id]? =
        some (made.keepIf (keeps making origin start.ancestors id)) := by
    rw [List.getElem?_mapIdx, isMade, Option.map_some]
  refine ⟨made.keepIf (keeps making origin start.ancestors id), ?_, rfl⟩
  rw [whole, List.getElem?_append_left (List.getElem?_eq_some_iff.mp older).1, older]

/-- The text of a cursor starts with its own text and with those of its ancestors. -/
theorem Sound.prefix_of_onTheWay {history : History} (sound : history.Sound) {origin id : Nat}
    {start : Made} (isStart : history.made[origin]? = some start)
    (onTheWay : id ∈ origin :: start.ancestors) :
    ∃ earlier, history.made[id]? = some earlier ∧ earlier.text <+: start.text := by
  rcases List.mem_cons.mp onTheWay with rfl | above
  · exact ⟨start, isStart, List.prefix_refl _⟩
  · exact sound.lineage start (List.mem_of_getElem? isStart) id above

/-- A cursor of a longer history was there before, perhaps still live, or is the new one. -/
theorem mem_extended {older : List Made} {keep : Nat → Bool} {child made : Made}
    (member : made ∈ older.mapIdx (fun id other => other.keepIf (keep id)) ++ [child]) :
    (∃ id, ∃ other : Made, older[id]? = some other ∧ made = other.keepIf (keep id)) ∨
      made = child := by
  rcases List.mem_append.mp member with isOlder | isNew
  · obtain ⟨id, inside, rfl⟩ := List.mem_mapIdx.mp isOlder
    exact .inl ⟨id, older[id], List.getElem?_eq_getElem inside, rfl⟩
  · exact .inr (List.mem_singleton.mp isNew)

section

variable {history next : History} {origin : Nat} {making : Making}

/-- The output starts with the text of the cursor that an append starts at. -/
theorem Sound.front (sound : history.Sound) {start : Made}
    (isStart : history.made[origin]? = some start)
    (allowed : making.isAppend = true → history.IsLive origin) (append : making.isAppend = true) :
    start.state.text <+: history.output.text := by
  obtain ⟨made, isOrigin, live⟩ := allowed append
  obtain rfl := Option.some.inj (isStart.symm.trans isOrigin)
  exact sound.kept start (List.mem_of_getElem? isStart) live

/-- In a longer history every cursor stands for the state with its own text. -/
theorem Sound.fits_extend (sound : history.Sound)
    (allowed : making.isAppend = true → history.IsLive origin)
    (extended : history.extend origin making = some next) :
    ∀ made ∈ next.made, made.cursor = made.state.cursor := by
  obtain ⟨start, cursor, isStart, isMade, whole⟩ := extend_cases extended
  intro made member
  rcases mem_extended (whole ▸ member) with ⟨id, other, isOther, rfl⟩ | rfl
  · exact sound.fits other (List.mem_of_getElem? isOther)
  · rw [sound.fits start (List.mem_of_getElem? isStart)] at isMade
    rw [Made.state, Made.text_child]
    exact Making.cursor_eq (sound.front isStart allowed) isMade

/-- In a longer history the output starts with the text of each cursor that is still live. An append
keeps only cursors on the way to its origin, so their texts are fronts of what is left. -/
theorem Sound.kept_extend (sound : history.Sound)
    (allowed : making.isAppend = true → history.IsLive origin)
    (extended : history.extend origin making = some next) :
    ∀ made ∈ next.made, made.live = true → made.text <+: next.output.text := by
  obtain ⟨start, cursor, isStart, isMade, whole⟩ := extend_cases extended
  rw [sound.fits start (List.mem_of_getElem? isStart)] at isMade
  intro made member live
  rw [Making.output_eq (sound.front isStart allowed) isMade]
  rcases mem_extended (whole ▸ member) with ⟨id, other, isOther, rfl⟩ | rfl
  · obtain ⟨wasLive, isKept⟩ := Bool.and_eq_true_iff.mp live
    split
    · rename_i append
      have onTheWay : id ∈ origin :: start.ancestors := by
        simpa [keeps, append] using isKept
      obtain ⟨earlier, isEarlier, early⟩ := sound.prefix_of_onTheWay isStart onTheWay
      obtain rfl := Option.some.inj (isOther.symm.trans isEarlier)
      exact early.trans (List.prefix_append _ _)
    · exact sound.kept other (List.mem_of_getElem? isOther) wasLive
  · rw [Made.text_child]
    split
    · exact List.prefix_refl _
    · rename_i noAppend
      rw [Making.texts_eq_nil noAppend, List.flatten_nil, List.append_nil]
      exact sound.kept start (List.mem_of_getElem? isStart) live

/-- In a longer history the text of a cursor starts with the text of each of its ancestors. -/
theorem Sound.lineage_extend (sound : history.Sound)
    (extended : history.extend origin making = some next) :
    ∀ made ∈ next.made, ∀ id ∈ made.ancestors,
      ∃ ancestor, next.made[id]? = some ancestor ∧ ancestor.text <+: made.text := by
  obtain ⟨start, cursor, isStart, -, whole⟩ := extend_cases extended
  intro made member id above
  rcases mem_extended (whole ▸ member) with ⟨_, other, isOther, rfl⟩ | rfl
  · obtain ⟨ancestor, isAncestor, early⟩ :=
      sound.lineage other (List.mem_of_getElem? isOther) id above
    obtain ⟨later, isLater, sameText⟩ := getElem?_of_extend extended isAncestor
    exact ⟨later, isLater, sameText ▸ early⟩
  · obtain ⟨ancestor, isAncestor, early⟩ := sound.prefix_of_onTheWay isStart above
    obtain ⟨later, isLater, sameText⟩ := getElem?_of_extend extended isAncestor
    refine ⟨later, isLater, ?_⟩
    rw [sameText, Made.text_child]
    exact early.trans (List.prefix_append _ _)

/-- A sound history stays sound if no append starts at an outdated cursor. -/
theorem Sound.extend (sound : history.Sound)
    (allowed : making.isAppend = true → history.IsLive origin)
    (extended : history.extend origin making = some next) : next.Sound :=
  ⟨sound.fits_extend allowed extended, sound.kept_extend allowed extended,
    sound.lineage_extend extended⟩

end

/-- Every disciplined history is sound. -/
theorem Disciplined.sound {source : List Char} {history : History}
    (disciplined : Disciplined source history) : history.Sound := by
  induction disciplined with
  | start => exact sound_ofSource source
  | extend earlier origin making allowed extended sound => exact sound.extend allowed extended

/-- In a sound history a live cursor reads its own text, and its offset counts the code units of
that text. -/
theorem Sound.reads {history : History} (sound : history.Sound) {made : Made}
    (member : made ∈ history.made) (live : made.live = true) :
    made.cursor.text? history.output = some made.text ∧
      made.cursor.offset = Text.units made.text := by
  have front : made.state.text <+: history.output.text := sound.kept made member live
  rw [sound.fits made member]
  refine ⟨?_, rfl⟩
  obtain ⟨left, cut⟩ := State.cutBytes_text front
  rw [Cursor.text?, cut]
  rfl

/-- In a sound history every append at a live cursor fits the output. -/
theorem Sound.extend_append {history : History} (sound : history.Sound) {origin : Nat}
    (isLive : history.IsLive origin) (added : List Char) :
    (history.extend origin (.append added)).isSome = true := by
  obtain ⟨start, isStart, live⟩ := isLive
  have member := List.mem_of_getElem? isStart
  have front : start.state.text <+: history.output.text := sound.kept start member live
  rw [History.extend, isStart, Option.bind_some, Making.make, sound.fits start member,
    State.append_cursor front]
  rfl

/-- If every append starts at a live cursor, then every live cursor reads the texts that were
appended on the way to it, its offset counts their code units, and the next append at a live cursor
fits the output whatever its text is. -/
theorem live_readable {source : List Char} {history : History}
    (disciplined : Disciplined source history) :
    (∀ made ∈ history.made, made.live = true →
      made.cursor.text? history.output = some made.texts.flatten ∧
        made.cursor.offset = Text.units made.texts.flatten) ∧
    ∀ origin, history.IsLive origin → ∀ added,
      (history.extend origin (.append added)).isSome = true :=
  ⟨fun _ member live => disciplined.sound.reads member live,
    fun _ isLive added => disciplined.sound.extend_append isLive added⟩

/-- Two appends start at the die. The second one outdates the first, which then ends inside a
character of the output, and so does a cursor that is made from it later. -/
theorem live_readable_branches :
    ∃ history, Disciplined "d6".toList history ∧
      history.made.map Made.live = [true, true, false, true, true, false] ∧
      (history.made.map fun made => made.cursor.text? history.output) =
        [some [], some ['🎲'], none, some ['🎲', '骰'], some ['🎲', '骰'], none] ∧
      (∀ made ∈ history.made, made.live = true →
        made.cursor.text? history.output = some made.texts.flatten ∧
          made.cursor.offset = Text.units made.texts.flatten) ∧
      ∀ added, (history.extend 1 (.append added)).isSome = true := by
  have root : Disciplined "d6".toList (ofSource "d6".toList) := .start
  have die := root.extend 0 (.append ['🎲']) (fun _ => ⟨_, rfl, rfl⟩) rfl
  have first := die.extend 1 (.append ['é']) (fun _ => ⟨_, rfl, rfl⟩) rfl
  have second := first.extend 1 (.append ['骰']) (fun _ => ⟨_, rfl, rfl⟩) rfl
  have further := second.extend 3 (.advance 1) (fun append => absurd append (by decide)) rfl
  have last := further.extend 2 (.atDepth 1) (fun append => absurd append (by decide)) rfl
  refine ⟨_, last, by decide, by decide, (live_readable last).1, ?_⟩
  exact (live_readable last).2 1 ⟨_, rfl, rfl⟩

end History

end DiceChat.Scan
