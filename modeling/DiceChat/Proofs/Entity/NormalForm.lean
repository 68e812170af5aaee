import Mathlib.Data.List.Chain
import DiceChat.Entity.Merge
import DiceChat.Proofs.Entity.Tiling

/-!
This file says that merged entities are a normal form. No two text entities stand next to each other
in it, merging again changes nothing, and the parts of a list may be merged first. Entities that are
no text stay as they are, and entities that cover a text still cover it. Merging from the left,
which makes the last entity longer in place, comes to the same list and never leaves the word.
-/

namespace DiceChat

/-- This is the length of all entities together. -/
def totalOffset : List Entity → Nat
  | [] => 0
  | entity :: others => entity.offset.toNat + totalOffset others

@[simp] theorem totalOffset_nil : totalOffset [] = 0 := rfl

@[simp] theorem totalOffset_cons (entity : Entity) (others : List Entity) :
    totalOffset (entity :: others) = entity.offset.toNat + totalOffset others := rfl

@[simp] theorem totalOffset_append (first second : List Entity) :
    totalOffset (first ++ second) = totalOffset first + totalOffset second := by
  induction first with
  | nil => simp
  | cons entity others ih => simp [ih, Nat.add_assoc]

/-- Separated entities have no two text entities in a row. -/
def Separated (entities : List Entity) : Prop :=
  entities.IsChain fun first second => ¬ (first.isText = true ∧ second.isText = true)

/-- This makes an entity as much longer as another one is. -/
def Entity.extend (entity more : Entity) : Entity :=
  { entity with offset := entity.offset + more.offset }

@[simp] theorem Entity.isText_extend (entity more : Entity) :
    (entity.extend more).isText = entity.isText := rfl

theorem Entity.extend_extend (first second third : Entity) :
    (first.extend second).extend third = first.extend (second.extend third) := by
  simp [extend, UInt64.add_assoc]

/-- Two text entities in a row join. -/
theorem joinText_of_text {entity next : Entity} (text : entity.isText = true)
    (nextText : next.isText = true) (others : List Entity) :
    joinText entity (next :: others) = entity.extend next :: others := by
  simp [joinText, text, nextText, Entity.extend]

/-- Other entities stay apart. -/
theorem joinText_of_apart {entity next : Entity}
    (apart : ¬ (entity.isText = true ∧ next.isText = true)) (others : List Entity) :
    joinText entity (next :: others) = entity :: next :: others := by
  rw [joinText, if_neg (by simpa using apart)]

/-- An entity joins the first of a list, or the two are not both text and it stands before it. -/
theorem joinText_cases (entity : Entity) (merged : List Entity) :
    (joinText entity merged = entity :: merged ∧
      ∀ next ∈ merged.head?, ¬ (entity.isText = true ∧ next.isText = true)) ∨
    ∃ next others, merged = next :: others ∧ entity.isText = true ∧ next.isText = true ∧
      joinText entity merged = entity.extend next :: others := by
  cases merged with
  | nil => exact .inl ⟨rfl, nofun⟩
  | cons next others =>
      by_cases both : entity.isText = true ∧ next.isText = true
      · exact .inr ⟨next, others, rfl, both.1, both.2, joinText_of_text both.1 both.2 others⟩
      · refine .inl ⟨joinText_of_apart both others, fun first isFirst => ?_⟩
        obtain rfl := Option.some.inj isFirst
        exact both

/-- Joining keeps entities separated. -/
theorem Separated.joinText {merged : List Entity} (separated : Separated merged)
    (entity : Entity) : Separated (joinText entity merged) := by
  rcases joinText_cases entity merged with ⟨same, apart⟩ | ⟨next, others, rfl, text, nextText, same⟩
  · rw [same]
    exact List.isChain_cons.mpr ⟨apart, separated⟩
  · -- The joined entity is a text like the one it replaces.
    obtain ⟨apart, others⟩ := List.isChain_cons.mp separated
    rw [same]
    exact List.isChain_cons.mpr ⟨fun third isThird both => apart third isThird ⟨nextText, both.2⟩,
      others⟩

/-- Merged entities are separated. -/
theorem mergeText_separated (entities : List Entity) : Separated (mergeText entities) := by
  induction entities with
  | nil => exact .nil
  | cons entity others ih =>
      rw [mergeText_cons]
      exact ih.joinText entity

/-- Joining two text entities one after the other joins them as one. -/
theorem joinText_joinText {first second : Entity} (firstText : first.isText = true)
    (secondText : second.isText = true) (merged : List Entity) :
    joinText first (joinText second merged) = joinText (first.extend second) merged := by
  have extended : (first.extend second).isText = true := firstText
  rcases joinText_cases second merged with ⟨same, apart⟩ | ⟨third, others, rfl, -, thirdText, same⟩
  · rw [same, joinText_of_text firstText secondText]
    cases merged with
    | nil => rfl
    | cons third others =>
        exact (joinText_of_apart (fun both => apart third rfl ⟨secondText, both.2⟩) others).symm
  · have alsoExtended : (second.extend third).isText = true := secondText
    rw [same, joinText_of_text firstText alsoExtended, joinText_of_text extended thirdText,
      Entity.extend_extend]

/-- An entity stands before a joined one as it stands before the first of its parts. -/
theorem joinText_joinText_of_apart {first second : Entity}
    (apart : ¬ (first.isText = true ∧ second.isText = true)) (merged : List Entity) :
    joinText first (joinText second merged) = first :: joinText second merged := by
  rcases joinText_cases second merged with ⟨same, -⟩ | ⟨third, others, -, -, -, same⟩
  · rw [same, joinText_of_apart apart]
  · have stillApart : ¬ (first.isText = true ∧ (second.extend third).isText = true) := apart
    rw [same, joinText_of_apart stillApart]

/-- It makes no difference whether entities are joined with each other first. -/
theorem foldr_joinText (entity : Entity) (entities merged : List Entity) :
    (joinText entity entities).foldr joinText merged =
      joinText entity (entities.foldr joinText merged) := by
  rcases joinText_cases entity entities with ⟨same, -⟩ | ⟨next, others, rfl, text, nextText, same⟩
  · rw [same, List.foldr_cons]
  · rw [same, List.foldr_cons, List.foldr_cons, joinText_joinText text nextText]

/-- It makes no difference whether entities are merged first. -/
theorem foldr_mergeText (entities merged : List Entity) :
    (mergeText entities).foldr joinText merged = entities.foldr joinText merged := by
  induction entities with
  | nil => rfl
  | cons entity others ih => rw [mergeText_cons, foldr_joinText, ih, List.foldr_cons]

/-- Merging merged entities changes nothing. -/
theorem mergeText_mergeText (entities : List Entity) :
    mergeText (mergeText entities) = mergeText entities :=
  foldr_mergeText entities []

/-- The parts of a list may be merged first. -/
theorem mergeText_append (first second : List Entity) :
    mergeText (first ++ second) = mergeText (mergeText first ++ mergeText second) := by
  have split (front back : List Entity) :
      mergeText (front ++ back) = front.foldr joinText (mergeText back) := List.foldr_append
  rw [split, split, mergeText_mergeText, foldr_mergeText]

/-- Joining keeps what is no text. -/
theorem filter_joinText (entity : Entity) (merged : List Entity) :
    (joinText entity merged).filter (fun other => !other.isText) =
      (entity :: merged).filter fun other => !other.isText := by
  rcases joinText_cases entity merged with ⟨same, -⟩ | ⟨next, others, rfl, text, nextText, same⟩
  · rw [same]
  · simp [same, text, nextText]

/-- Merging keeps what is no text, in its order. -/
theorem filter_mergeText (entities : List Entity) :
    (mergeText entities).filter (fun other => !other.isText) =
      entities.filter fun other => !other.isText := by
  induction entities with
  | nil => rfl
  | cons entity others ih =>
      rw [mergeText_cons, filter_joinText, List.filter_cons, List.filter_cons, ih]

/-- A sum of lengths that fits into the word is the length of the longer entity. -/
theorem Entity.toNat_offset_extend {entity more : Entity}
    (fits : entity.offset.toNat + more.offset.toNat < UInt64.size) :
    (entity.extend more).offset.toNat = entity.offset.toNat + more.offset.toNat := by
  change (entity.offset + more.offset).toNat = _
  rw [UInt64.toNat_add, Nat.mod_eq_of_lt fits]

/-- Merging keeps the length of all entities together. -/
theorem totalOffset_mergeText {entities : List Entity}
    (fits : totalOffset entities < UInt64.size) :
    totalOffset (mergeText entities) = totalOffset entities := by
  induction entities with
  | nil => rfl
  | cons entity others ih =>
      rw [totalOffset_cons] at fits
      rw [mergeText_cons, totalOffset_cons, ← ih (by omega)]
      have total := ih (by omega)
      rcases joinText_cases entity (mergeText others) with
        ⟨same, -⟩ | ⟨next, later, merged, -, -, same⟩
      · rw [same, totalOffset_cons]
      · rw [merged, totalOffset_cons] at total
        rw [same, merged, totalOffset_cons, totalOffset_cons,
          Entity.toNat_offset_extend (by omega), Nat.add_assoc]

/-- The parts of tiled entities are as long as the entities together. -/
theorem units_of_tiles {start : Nat} {entities : List Entity} {parts : List (List Char)}
    (tiled : Tiles start entities parts) : Text.units parts.flatten = totalOffset entities := by
  induction entities generalizing start parts with
  | nil =>
      cases parts with
      | nil => rfl
      | cons part parts => exact tiled.elim
  | cons entity others ih =>
      cases parts with
      | nil => exact tiled.elim
      | cons part parts =>
          obtain ⟨-, sized, later⟩ := tiled
          rw [List.flatten_cons, Text.units_append, totalOffset_cons, ih later, sized]

/-- Merged entities tile the same text in fewer parts. -/
theorem Tiles.mergeText {start : Nat} {entities : List Entity} {parts : List (List Char)}
    (tiled : Tiles start entities parts) (fits : totalOffset entities < UInt64.size) :
    ∃ joined, Tiles start (mergeText entities) joined ∧ joined.flatten = parts.flatten := by
  induction entities generalizing start parts with
  | nil => exact ⟨parts, tiled, rfl⟩
  | cons entity others ih =>
      cases parts with
      | nil => exact tiled.elim
      | cons part parts =>
          obtain ⟨begins, sized, later⟩ := tiled
          rw [totalOffset_cons] at fits
          have othersFit : totalOffset others < UInt64.size := by omega
          obtain ⟨joined, behind, whole⟩ := ih later othersFit
          rw [mergeText_cons, List.flatten_cons, ← whole]
          rcases joinText_cases entity (DiceChat.mergeText others) with
            ⟨same, -⟩ | ⟨next, rest, merged, -, -, same⟩
          · rw [same]
            exact ⟨part :: joined, ⟨begins, sized, behind⟩, rfl⟩
          · have total := totalOffset_mergeText othersFit
            rw [merged, totalOffset_cons] at total
            rw [merged] at behind
            match joined, behind with
            | second :: further, ⟨_, secondSized, behind⟩ =>
                refine ⟨(part ++ second) :: further, ?_, by simp⟩
                rw [same, Tiles, Text.units_append, ← Nat.add_assoc,
                  Entity.toNat_offset_extend (by omega), sized, secondSized]
                exact ⟨begins, rfl, behind⟩

/-- The check goes on behind an entity only if the entity starts where it is expected and ends
between two characters. -/
theorem coverageFrom_cons_ok {length index expected : Nat} {rest : List Char} {entity : Entity}
    {others : List Entity}
    (accepted : coverageFrom length index expected rest (entity :: others) = .ok ()) :
    entity.start.toNat = expected ∧ ∃ part after,
      Text.cutUnits rest entity.offset.toNat = some (part, after) ∧
        coverageFrom length (index + 1) entity.stop after others = .ok () := by
  rw [coverageFrom] at accepted
  split_ifs at accepted
  split at accepted
  · cases accepted
  · rename_i part after found
    exact ⟨by omega, part, after, found, accepted⟩

/-- From a position on, the check accepts nothing but tilings if the lengths fit into the word. -/
theorem tiles_of_coverageFrom {length index expected : Nat} {rest : List Char}
    {entities : List Entity} (placed : expected + Text.units rest = length)
    (fits : expected + totalOffset entities < UInt64.size)
    (accepted : coverageFrom length index expected rest entities = .ok ()) :
    ∃ parts, rest = parts.flatten ∧ Tiles expected entities parts := by
  induction entities generalizing index expected rest with
  | nil =>
      rw [coverageFrom] at accepted
      split_ifs at accepted
      have empty : Text.units rest = 0 := by omega
      exact ⟨[], (Text.measure_eq_zero Text.unitSize_positive rest).mp empty, trivial⟩
  | cons entity others ih =>
      obtain ⟨begins, part, after, found, behind⟩ := coverageFrom_cons_ok accepted
      obtain ⟨rfl, sized⟩ := (Text.cutUnits_eq_some _ _ _ _).mp found
      rw [totalOffset_cons] at fits
      rw [Text.units_append] at placed
      -- The sum of the lengths is small, so the end of the range is never clipped.
      have ends : entity.stop = expected + entity.offset.toNat := by
        rw [Entity.stop, begins]
        omega
      rw [ends] at behind
      obtain ⟨parts, rfl, tiled⟩ := ih (by omega) (by omega) behind
      exact ⟨part :: parts, rfl, begins, sized.symm, sized ▸ tiled⟩

/-- Merging keeps a text covered. -/
theorem coverage_mergeText {text : List Char} {entities : List Entity}
    (fits : totalOffset entities < UInt64.size) (accepted : coverage text entities = .ok ()) :
    coverage text (mergeText entities) = .ok () := by
  obtain ⟨parts, rfl, tiled⟩ := tiles_of_coverageFrom (Nat.zero_add _) (by omega) accepted
  obtain ⟨joined, merged, whole⟩ := tiled.mergeText fits
  rw [← whole]
  apply coverage_of_tiles merged
  rw [units_of_tiles merged, totalOffset_mergeText fits]
  exact fits

/-- This adds an entity behind merged ones. A text behind a text makes the last entity longer in
place, and there is no answer if its length leaves the word. -/
def pushText (merged : List Entity) (entity : Entity) : Option (List Entity) :=
  match merged.getLast? with
  | none => some [entity]
  | some last =>
      if last.isText && entity.isText then
        if last.offset.toNat + entity.offset.toNat < UInt64.size then
          some (merged.dropLast ++ [last.extend entity])
        else none
      else some (merged ++ [entity])

/-- Only the last entity is looked at. -/
theorem pushText_cons (first second : Entity) (others : List Entity) (entity : Entity) :
    pushText (first :: second :: others) entity =
      (pushText (second :: others) entity).map (first :: ·) := by
  rw [pushText, pushText, List.getLast?_cons_cons, List.getLast?_cons, List.dropLast_cons_cons]
  dsimp only
  split_ifs <;> rfl

/-- Behind a single entity, an entity is added as that one is joined with it from before. -/
theorem pushText_singleton {first entity : Entity}
    (fits : first.offset.toNat + entity.offset.toNat < UInt64.size) :
    pushText [first] entity = some (joinText first [entity]) := by
  rw [pushText, joinText]
  dsimp only [List.getLast?_singleton]
  split_ifs
  · rfl
  · rfl

/-- An entity may be added behind before another one is joined from before. -/
theorem pushText_joinText {first entity : Entity} {merged pushed : List Entity}
    (fits : totalOffset (first :: merged) + entity.offset.toNat < UInt64.size)
    (isPushed : pushText merged entity = some pushed) :
    pushText (joinText first merged) entity = some (joinText first pushed) := by
  match merged with
  | [] =>
      obtain rfl := Option.some.inj isPushed
      exact pushText_singleton (by simpa using fits)
  | [second] =>
      simp only [totalOffset_cons, totalOffset_nil] at fits
      have room : second.offset.toNat + entity.offset.toNat < UInt64.size := by omega
      have alone := pushText_singleton room
      obtain rfl := Option.some.inj (alone.symm.trans isPushed)
      by_cases both : first.isText = true ∧ second.isText = true
      · have roomBefore : first.offset.toNat + second.offset.toNat < UInt64.size := by omega
        have length := Entity.toNat_offset_extend roomBefore
        rw [joinText_of_text both.1 both.2, joinText_joinText both.1 both.2]
        exact pushText_singleton (by omega)
      · rw [joinText_of_apart both, joinText_joinText_of_apart both, pushText_cons, alone,
          Option.map_some]
  | second :: third :: others =>
      rw [pushText_cons] at isPushed
      obtain ⟨later, isLater, rfl⟩ := Option.map_eq_some_iff.mp isPushed
      by_cases both : first.isText = true ∧ second.isText = true
      · rw [joinText_of_text both.1 both.2, joinText_of_text both.1 both.2, pushText_cons, isLater,
          Option.map_some]
      · rw [joinText_of_apart both, joinText_of_apart both, pushText_cons, pushText_cons, isLater,
          Option.map_some, Option.map_some]

/-- Merging with one more entity adds it behind the merged ones. -/
theorem pushText_mergeText {entities : List Entity} {entity : Entity}
    (fits : totalOffset (entities ++ [entity]) < UInt64.size) :
    pushText (mergeText entities) entity = some (mergeText (entities ++ [entity])) := by
  induction entities with
  | nil => rfl
  | cons first others ih =>
      simp only [totalOffset_append, totalOffset_cons, totalOffset_nil] at fits ih
      rw [mergeText_cons, List.cons_append, mergeText_cons]
      apply pushText_joinText _ (ih (by omega))
      rw [totalOffset_cons, totalOffset_mergeText (by omega)]
      omega

/-- Merging from the left comes to the merged entities. -/
theorem foldlM_pushText {entities : List Entity} (merged : List Entity)
    (fits : totalOffset (merged ++ entities) < UInt64.size) :
    entities.foldlM pushText (mergeText merged) = some (mergeText (merged ++ entities)) := by
  induction entities generalizing merged with
  | nil => rw [List.append_nil]; rfl
  | cons entity others ih =>
      have step : pushText (mergeText merged) entity = some (mergeText (merged ++ [entity])) := by
        apply pushText_mergeText
        simp only [totalOffset_append, totalOffset_cons, totalOffset_nil] at fits ⊢
        omega
      rw [List.append_cons] at fits ⊢
      rw [List.foldlM_cons, step]
      exact ih (merged ++ [entity]) fits

/-- Merging is a normal form. If the lengths of the entities fit into the word together, parts may
be merged first, the result stays when it is merged again, it has no two text entities in a row and
it keeps all other entities in their order. A text that was covered stays covered. Merging from the
left comes to the same and never leaves the word. -/
theorem mergeText_normal (first second : List Entity)
    (fits : totalOffset (first ++ second) < UInt64.size) :
    mergeText (first ++ second) = mergeText (mergeText first ++ mergeText second) ∧
    mergeText (mergeText (first ++ second)) = mergeText (first ++ second) ∧
    Separated (mergeText (first ++ second)) ∧
    (mergeText (first ++ second)).filter (fun entity => !entity.isText) =
      (first ++ second).filter (fun entity => !entity.isText) ∧
    (∀ text, coverage text first = .ok () → coverage text (mergeText first) = .ok ()) ∧
    (first ++ second).foldlM pushText [] = some (mergeText (first ++ second)) := by
  have firstFits : totalOffset first < UInt64.size := by
    rw [totalOffset_append] at fits
    omega
  exact ⟨mergeText_append first second, mergeText_mergeText _, mergeText_separated _,
    filter_mergeText _, fun text => coverage_mergeText firstFits, foldlM_pushText [] fits⟩

/-- A run of text goes on over the end of the first part, with an empty entity in it. -/
theorem mergeText_normal_run :
    totalOffset ([⟨0, 1, .text⟩, ⟨1, 2, .text⟩] ++ [⟨3, 0, .text⟩, ⟨3, 1, .strong⟩]) <
        UInt64.size ∧
      mergeText ([⟨0, 1, .text⟩, ⟨1, 2, .text⟩] ++ [⟨3, 0, .text⟩, ⟨3, 1, .strong⟩]) =
        [⟨0, 3, .text⟩, ⟨3, 1, .strong⟩] ∧
      Separated [⟨0, 3, .text⟩, ⟨3, 1, .strong⟩] ∧
      coverage ['d', '🎲'] (mergeText [⟨0, 1, .text⟩, ⟨1, 2, .text⟩]) = .ok () := by
  have fits : totalOffset ([⟨0, 1, .text⟩, ⟨1, 2, .text⟩] ++ [⟨3, 0, .text⟩, ⟨3, 1, .strong⟩]) <
      UInt64.size := by decide
  obtain ⟨-, -, separated, -, covered, -⟩ := mergeText_normal _ _ fits
  exact ⟨fits, rfl, separated, covered ['d', '🎲'] rfl⟩

end DiceChat
