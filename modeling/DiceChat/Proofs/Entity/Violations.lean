import DiceChat.Proofs.Entity.Tiling
import DiceChat.Proofs.Entity.Walk

/-!
This file says exactly what the coverage check finds. It accepts the entities if they tile the text.
Otherwise some first entities tile a front of it, and the check reports how the next entity breaks
the tiling, or that no entity is left to cover the rest.
-/

namespace DiceChat

open Text

namespace Text

/-- A cut fails within the text only between the halves of a surrogate pair. -/
theorem exists_pair_of_cutUnits_eq_none {text : List Char} {count : Nat}
    (fits : count ≤ units text) (failed : cutUnits text count = none) :
    ∃ front character back, text = front ++ character :: back ∧ unitSize character = 2 ∧
      count = units front + 1 := by
  induction text generalizing count with
  | nil =>
      obtain rfl := Nat.le_zero.mp fits
      exact absurd failed (by simp [cutUnits])
  | cons character rest ih =>
      cases count with
      | zero => exact absurd failed (by simp [cutUnits])
      | succ count =>
          rw [cutUnits, cut] at failed
          split at failed
          · rename_i within
            rw [units_cons] at fits
            obtain ⟨front, half, back, rfl, pair, inside⟩ :=
              ih (by omega) (Option.map_eq_none_iff.mp failed)
            exact ⟨character :: front, half, back, rfl, pair, by rw [units_cons]; omega⟩
          · rename_i large
            have most : unitSize character ≤ 2 := by
              rw [unitSize]
              split <;> omega
            exact ⟨[], character, rest, rfl, by omega, by rw [units_nil]; omega⟩

/-- No part of a text ends between the halves of a surrogate pair. -/
theorem units_ne_half {text first second front back : List Char} {character : Char}
    (parts : text = first ++ second) (split : text = front ++ character :: back)
    (pair : unitSize character = 2) : units first ≠ units front + 1 := by
  rcases List.append_eq_append_iff.mp (parts.symm.trans split) with
    ⟨more, rfl, -⟩ | ⟨more, rfl, tail⟩
  · rw [units_append]
    omega
  · rw [units_append]
    cases more with
    | nil =>
        rw [units_nil]
        omega
    | cons head later =>
        obtain rfl : character = head := (List.cons.inj tail).1
        rw [units_cons]
        omega

end Text

/-- The entities tile a front of the text and leave the rest. -/
structure TilesFront (text : List Char) (entities : List Entity) (front rest : List Char) :
    Prop where
  split : text = front ++ rest
  tiled : ∃ parts, front = parts.flatten ∧ Tiles 0 entities parts

/-- At the position that is expected, an entity breaks the tiling if it starts later or earlier, if
it ends past the text, or if it ends between the halves of a surrogate pair. -/
inductive Breaks (text : List Char) (expected : Nat) (entity : Entity) (index : Nat) :
    CoverageError → Prop where
  | gap (late : expected < entity.start.toNat) :
      Breaks text expected entity index (.gap index expected entity.start.toNat)
  | overlap (early : entity.start.toNat < expected) :
      Breaks text expected entity index (.overlap index expected entity.start.toNat)
  | outOfBounds (starts : entity.start.toNat = expected)
      (long : units text < expected + entity.offset.toNat) :
      Breaks text expected entity index (.outOfBounds index entity.stop (units text))
  | notCharBoundary {front back : List Char} {character : Char}
      (starts : entity.start.toNat = expected) (split : text = front ++ character :: back)
      (pair : unitSize character = 2)
      (halved : expected + entity.offset.toNat = units front + 1) :
      Breaks text expected entity index
        (.notCharBoundary index (expected + entity.offset.toNat))

/-- A tiling is violated by the first entity that no tiling of a front can include, or else by the
rest that no entity covers. -/
inductive Violated (text : List Char) (entities : List Entity) : CoverageError → Prop where
  | broken {earlier later : List Entity} {entity : Entity} {front rest : List Char}
      {error : CoverageError} (listed : entities = earlier ++ entity :: later)
      (tiled : TilesFront text earlier front rest)
      (stuck : ¬ ∃ front rest, TilesFront text (earlier ++ [entity]) front rest)
      (breaks : Breaks text (units front) entity earlier.length error) :
      Violated text entities error
  | uncovered {front rest : List Char} (tiled : TilesFront text entities front rest)
      (left : rest ≠ []) : Violated text entities (.uncovered (units front) (units text))

/-- This is the check by byte positions. It breaks down if it takes the text from a position past
the end or inside a character. -/
def coverageAt (text : List Char) (index expected byte : Nat) :
    List Entity → Option (Except CoverageError Unit)
  | [] =>
      some (if expected = units text then .ok () else .error (.uncovered expected (units text)))
  | entity :: others =>
      if expected < entity.start.toNat then
        some (.error (.gap index expected entity.start.toNat))
      else if entity.start.toNat < expected then
        some (.error (.overlap index expected entity.start.toNat))
      else if units text < entity.stop then
        some (.error (.outOfBounds index entity.stop (units text)))
      else
        (fromByte text byte).bind fun rest =>
          match byteIndex rest entity.offset.toNat with
          | none => some (.error (.notCharBoundary index entity.stop))
          | some length => coverageAt text (index + 1) entity.stop (byte + length) others

/-- By byte positions the check never breaks down. -/
theorem coverageAt_eq {text front rest : List Char} (split : text = front ++ rest)
    (index expected : Nat) (entities : List Entity) :
    coverageAt text index expected (bytes front) entities =
      some (coverageFrom (units text) index expected rest entities) := by
  induction entities generalizing index expected front rest with
  | nil => rfl
  | cons entity others ih =>
      rw [coverageAt, coverageFrom]
      split_ifs
      · rfl
      · rfl
      · rfl
      · have here : fromByte text (bytes front) = some rest := by rw [split, fromByte_append]
        rw [here, Option.bind_some, byteIndex]
        cases found : cutUnits rest entity.offset.toNat with
        | none => rfl
        | some parts =>
            obtain ⟨part, later⟩ := parts
            obtain ⟨rfl, -⟩ := (cutUnits_eq_some _ _ _ _).mp found
            rw [← List.append_assoc] at split
            dsimp only [Option.map_some]
            rw [← bytes_append]
            exact ih split (index + 1) entity.stop

/-- An entity that covers what follows a tiled front extends the tiling. -/
theorem TilesFront.extend {text front rest part later : List Char} {entities : List Entity}
    {entity : Entity} (tiled : TilesFront text entities front rest) (isRest : rest = part ++ later)
    (starts : entity.start.toNat = units front) (sized : entity.offset.toNat = units part) :
    TilesFront text (entities ++ [entity]) (front ++ part) later := by
  obtain ⟨split, parts, rfl, tiles⟩ := tiled
  refine ⟨by rw [split, isRest, List.append_assoc], parts ++ [part], by simp, ?_⟩
  refine tiles_append.mpr ⟨parts, [part], rfl, tiles, ?_, sized, trivial⟩
  rw [starts, Nat.zero_add]

/-- Behind a tiled front, each entity breaks the tiling or covers a part of the rest. -/
theorem TilesFront.breaks_or_covers {text front rest : List Char} {entities : List Entity}
    (tiled : TilesFront text entities front rest) (entity : Entity) (index : Nat) :
    (∃ error, Breaks text (units front) entity index error) ∨
      ∃ part later, rest = part ++ later ∧ entity.start.toNat = units front ∧
        entity.offset.toNat = units part := by
  rcases Nat.lt_trichotomy (units front) entity.start.toNat with late | starts | early
  · exact .inl ⟨_, .gap late⟩
  · by_cases long : units text < units front + entity.offset.toNat
    · exact .inl ⟨_, .outOfBounds starts.symm long⟩
    · cases found : cutUnits rest entity.offset.toNat with
      | none =>
          have total := congrArg units tiled.split
          rw [units_append] at total
          obtain ⟨before, character, back, isRest, pair, halved⟩ :=
            exists_pair_of_cutUnits_eq_none (by omega) found
          have split : text = (front ++ before) ++ character :: back := by
            rw [tiled.split, isRest, List.append_assoc]
          refine .inl ⟨_, .notCharBoundary starts.symm split pair ?_⟩
          rw [halved, units_append, Nat.add_assoc]
      | some parts =>
          obtain ⟨part, later⟩ := parts
          obtain ⟨isRest, sized⟩ := (cutUnits_eq_some _ _ _ _).mp found
          exact .inr ⟨part, later, isRest, starts.symm, sized.symm⟩
  · exact .inl ⟨_, .overlap early⟩

/-- An entity that breaks the tiling is in no tiling of a front. -/
theorem TilesFront.stuck {text front rest : List Char} {entities : List Entity} {entity : Entity}
    {index : Nat} {error : CoverageError} (tiled : TilesFront text entities front rest)
    (breaks : Breaks text (units front) entity index error) :
    ¬ ∃ front rest, TilesFront text (entities ++ [entity]) front rest := by
  rintro ⟨_, after, split, parts, rfl, tiles⟩
  obtain ⟨earlier, last, rfl, tilesEarlier, tilesLast⟩ := tiles_append.mp tiles
  obtain ⟨-, others, rfl, tilesOthers⟩ := tiled
  obtain ⟨part, rfl⟩ : ∃ part, last = [part] := by
    match last, tilesLast with
    | [part], _ => exact ⟨part, rfl⟩
  obtain ⟨starts, sized, -⟩ := tilesLast
  have same := units_eq_of_tiles tilesOthers tilesEarlier
  have total : units (earlier ++ [part]).flatten = units others.flatten + entity.offset.toNat := by
    rw [List.flatten_append, List.flatten_singleton, units_append, same, sized]
  cases breaks with
  | gap late => omega
  | overlap early => omega
  | outOfBounds starts long =>
      have whole := congrArg units split
      rw [units_append] at whole
      omega
  | notCharBoundary starts isText pair halved =>
      exact units_ne_half split isText pair (total.trans halved)

/-- Entities tile a front, or a first one of them breaks the tiling. -/
theorem TilesFront.tiles_or_breaks {text front rest : List Char} {earlier : List Entity}
    (tiled : TilesFront text earlier front rest) (entities : List Entity) :
    (∃ front rest, TilesFront text (earlier ++ entities) front rest) ∨
      ∃ before entity later front rest error, earlier ++ entities = before ++ entity :: later ∧
        TilesFront text before front rest ∧
          Breaks text (units front) entity before.length error := by
  induction entities generalizing earlier front rest with
  | nil => exact .inl ⟨front, rest, by rwa [List.append_nil]⟩
  | cons entity others ih =>
      rcases tiled.breaks_or_covers entity earlier.length with
        ⟨error, breaks⟩ | ⟨part, later, isRest, starts, sized⟩
      · exact .inr ⟨earlier, entity, others, front, rest, error, rfl, tiled, breaks⟩
      · have extended := ih (tiled.extend isRest starts sized)
        rwa [List.append_assoc, List.singleton_append] at extended

/-- The check passes the entities that tile a front. -/
theorem TilesFront.coverage_append {text front rest : List Char} {earlier : List Entity}
    (tiled : TilesFront text earlier front rest) (short : units text < UInt64.size)
    (later : List Entity) :
    coverage text (earlier ++ later) =
      coverageFrom (units text) earlier.length (units front) rest later := by
  obtain ⟨split, parts, rfl, tiles⟩ := tiled
  have total := congrArg units split
  rw [units_append] at total
  have passed := coverageFrom_of_tiles tiles (by omega : 0 + _ ≤ units text) short 0 rest later
  rw [Nat.zero_add, Nat.zero_add] at passed
  rw [coverage, ← passed, ← split]

/-- The check reports an entity that breaks the tiling. -/
theorem TilesFront.coverage_of_breaks {text front rest : List Char} {earlier : List Entity}
    {entity : Entity} {error : CoverageError} (tiled : TilesFront text earlier front rest)
    (short : units text < UInt64.size - 1)
    (breaks : Breaks text (units front) entity earlier.length error) (later : List Entity) :
    coverage text (earlier ++ entity :: later) = .error error := by
  have size : UInt64.size = 2 ^ 64 := rfl
  rw [tiled.coverage_append (by omega), coverageFrom]
  cases breaks with
  | gap late => rw [if_pos late]
  | overlap early => rw [if_neg (by omega), if_pos early]
  | outOfBounds starts long =>
      have beyond : units text < entity.stop := by
        rw [Entity.stop]
        omega
      rw [if_neg (by omega), if_neg (by omega), if_pos beyond]
  | @notCharBoundary before back character starts isText pair halved =>
      have total := congrArg units isText
      rw [units_append, units_cons] at total
      have ends : entity.stop = units front + entity.offset.toNat := by
        rw [Entity.stop]
        omega
      have failed : cutUnits rest entity.offset.toNat = none := by
        refine Option.eq_none_iff_forall_not_mem.mpr fun parts member => ?_
        obtain ⟨isRest, sized⟩ := (cutUnits_eq_some _ _ _ _).mp member
        have split : text = (front ++ parts.1) ++ parts.2 := by
          rw [tiled.split, isRest, List.append_assoc]
        apply units_ne_half split isText pair
        rw [units_append, sized, halved]
      rw [if_neg (by omega), if_neg (by omega), if_neg (by omega), failed, ends]

/-- If all entities tile a front, the check asks only whether something is left. -/
theorem TilesFront.coverage_eq {text front rest : List Char} {entities : List Entity}
    (tiled : TilesFront text entities front rest) (short : units text < UInt64.size) :
    coverage text entities =
      if rest = [] then .ok () else .error (.uncovered (units front) (units text)) := by
  have passed := tiled.coverage_append short []
  rw [List.append_nil, coverageFrom] at passed
  have total := congrArg units tiled.split
  rw [units_append] at total
  have covers : units front = units text ↔ rest = [] := by
    rw [← measure_eq_zero unitSize_positive rest]
    change _ ↔ units rest = 0
    omega
  rw [passed]
  exact if_congr covers rfl rfl

/-- Without any entity, the empty front is tiled. -/
theorem tilesFront_nil (text : List Char) : TilesFront text [] [] text :=
  ⟨rfl, [], rfl, trivial⟩

/-- What the check reports is a violation. -/
theorem violated_of_coverage {text : List Char} {entities : List Entity} {error : CoverageError}
    (short : units text < UInt64.size - 1) (reported : coverage text entities = .error error) :
    Violated text entities error := by
  rcases (tilesFront_nil text).tiles_or_breaks entities with
    ⟨front, rest, tiled⟩ | ⟨before, entity, later, front, rest, other, listed, tiled, breaks⟩
  · rw [List.nil_append] at tiled
    rw [tiled.coverage_eq (by omega)] at reported
    split_ifs at reported with empty
    obtain rfl := Except.error.inj reported
    exact .uncovered tiled empty
  · obtain rfl : entities = before ++ entity :: later := listed
    rw [tiled.coverage_of_breaks short breaks] at reported
    obtain rfl := Except.error.inj reported
    exact .broken rfl tiled (tiled.stuck breaks) breaks

/-- The check reports every violation. -/
theorem Violated.coverage {text : List Char} {entities : List Entity} {error : CoverageError}
    (violated : Violated text entities error) (short : units text < UInt64.size - 1) :
    coverage text entities = .error error := by
  cases violated with
  | broken listed tiled stuck breaks =>
      rw [listed]
      exact tiled.coverage_of_breaks short breaks _
  | uncovered tiled left => rw [tiled.coverage_eq (by omega), if_neg left]

/-- The check accepts nothing but tilings. -/
theorem exists_tiles_of_coverage {text : List Char} {entities : List Entity}
    (short : units text < UInt64.size - 1) (accepted : coverage text entities = .ok ()) :
    ∃ parts, text = parts.flatten ∧ Tiles 0 entities parts := by
  rcases (tilesFront_nil text).tiles_or_breaks entities with
    ⟨front, rest, tiled⟩ | ⟨before, entity, later, front, rest, error, listed, tiled, breaks⟩
  · rw [List.nil_append] at tiled
    rw [tiled.coverage_eq (by omega)] at accepted
    split_ifs at accepted with empty
    obtain ⟨split, parts, rfl, tiles⟩ := tiled
    exact ⟨parts, by rw [split, empty, List.append_nil], tiles⟩
  · obtain rfl : entities = before ++ entity :: later := listed
    rw [tiled.coverage_of_breaks short breaks] at accepted
    exact absurd accepted (by simp)

/-- The check accepts exactly the entities that tile the text, and it reports exactly the first
violation of a tiling. By byte positions it never breaks down. -/
theorem coverage_exact (text : List Char) (entities : List Entity)
    (short : units text < UInt64.size - 1) :
    (coverage text entities = .ok () ↔
        ∃ parts, text = parts.flatten ∧ Tiles 0 entities parts) ∧
      (∀ error, coverage text entities = .error error ↔ Violated text entities error) ∧
        coverageAt text 0 0 0 entities = some (coverage text entities) := by
  refine ⟨⟨exists_tiles_of_coverage short, ?_⟩, fun error => ?_, ?_⟩
  · rintro ⟨parts, rfl, tiles⟩
    exact coverage_of_tiles tiles (by omega)
  · exact ⟨violated_of_coverage short, fun violated => violated.coverage short⟩
  · exact coverageAt_eq (List.nil_append text).symm 0 0 entities

/-- An empty entity passes, and the next one is reported because it ends inside the character. -/
theorem coverage_exact_halved :
    units ['🎲', '!'] < UInt64.size - 1 ∧
      coverage ['🎲', '!'] [⟨0, 0, .strong⟩, ⟨0, 1, .text⟩] = .error (.notCharBoundary 1 1) ∧
        Violated ['🎲', '!'] [⟨0, 0, .strong⟩, ⟨0, 1, .text⟩] (.notCharBoundary 1 1) :=
  ⟨by decide, rfl, ((coverage_exact _ _ (by decide)).2.1 _).mp rfl⟩

end DiceChat
