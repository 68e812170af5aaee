import DiceChat.Proofs.Entity.Walk

/-!
This file says exactly what an entity covers. A range fits a text if the text has one part before it
and one part of its own length behind that. There is at most one such split, and the slice finds it.
By byte positions two scans look for the ends of the range, and no position that they give lies past
the end of the text or inside a character.
-/

namespace DiceChat

namespace Text

/-- This scans a text that starts some code units and bytes behind the start of a longer one. It
gives the byte position with the given number of code units before it. -/
def scanUnits (count : Nat) : Nat → Nat → List Char → Option Nat
  | passed, byte, [] => if passed = count then some byte else none
  | passed, byte, character :: rest =>
      if count ≤ passed then if passed = count then some byte else none
      else scanUnits count (passed + unitSize character) (byte + character.utf8Size) rest

/-- A scan that has gone too far stepped over a surrogate pair. -/
theorem scanUnits_of_lt {count passed : Nat} (far : count < passed) (byte : Nat)
    (text : List Char) : scanUnits count passed byte text = none := by
  cases text with
  | nil => rw [scanUnits, if_neg (by omega)]
  | cons character rest => rw [scanUnits, if_pos (by omega), if_neg (by omega)]

/-- A scan cuts the text at the code units that are left. -/
theorem scanUnits_eq {count passed : Nat} (within : passed ≤ count) (byte : Nat)
    (text : List Char) :
    scanUnits count passed byte text =
      (cutUnits text (count - passed)).map fun parts => byte + bytes parts.1 := by
  induction text generalizing passed byte with
  | nil =>
      rw [scanUnits]
      split
      · rename_i arrived
        simp [arrived, cutUnits]
      · obtain ⟨less, left⟩ : ∃ less, count - passed = less + 1 := ⟨count - passed - 1, by omega⟩
        simp [left, cutUnits, cut]
  | cons character rest ih =>
      rw [scanUnits]
      split
      · have arrived : passed = count := by omega
        simp [arrived, cutUnits]
      · obtain ⟨less, left⟩ : ∃ less, count - passed = less + 1 := ⟨count - passed - 1, by omega⟩
        rw [left, cutUnits, cut]
        split
        · rename_i fits
          have remains : count - (passed + unitSize character) = less + 1 - unitSize character := by
            omega
          rw [ih (by omega), remains, cutUnits, Option.map_map]
          congr 1
          funext parts
          simp [Nat.add_assoc]
        · rw [scanUnits_of_lt (by omega)]
          rfl

/-- From the start, the scan finds the byte position after so many code units. -/
theorem scanUnits_eq_byteIndex (count : Nat) (text : List Char) :
    scanUnits count 0 0 text = byteIndex text count := by
  rw [scanUnits_eq (Nat.zero_le count), byteIndex, Nat.sub_zero]
  simp

/-- This is the text between two byte positions. -/
def betweenBytes (text : List Char) (first last : Nat) : Option (List Char) :=
  (upToByte text last).bind fun front => fromByte front first

theorem betweenBytes_append (before covered after : List Char) :
    betweenBytes (before ++ (covered ++ after)) (bytes before) (bytes before + bytes covered) =
      some covered := by
  rw [betweenBytes, ← List.append_assoc, ← bytes_append, upToByte_append, Option.bind_some,
    fromByte_append]

end Text

open Text

namespace Entity

/-- The range of an entity fits a text that splits into a part before it, the covered part and a
part after it. -/
structure Covers (entity : Entity) (text before covered after : List Char) : Prop where
  split : text = before ++ (covered ++ after)
  starts : units before = entity.start.toNat
  sized : units covered = entity.offset.toNat

/-- This is the slice by byte positions. It breaks down if it takes the text from or to a position
past the end or inside a character. -/
def sliceAt (entity : Entity) (text : List Char) : Option (Option (List Char)) :=
  match scanUnits entity.start.toNat 0 0 text with
  | none => some none
  | some start =>
      (fromByte text start).bind fun rest =>
        match scanUnits entity.offset.toNat 0 0 rest with
        | none => some none
        | some length => (betweenBytes text start (start + length)).map some

/-- The slice is the covered part of a split. -/
theorem slice_eq_some_iff {entity : Entity} {text covered : List Char} :
    entity.slice text = some covered ↔
      ∃ before after, entity.Covers text before covered after := by
  constructor
  · intro found
    obtain ⟨⟨before, rest⟩, isStart, inRest⟩ := Option.bind_eq_some_iff.mp found
    obtain ⟨⟨part, after⟩, isCovered, same⟩ := Option.bind_eq_some_iff.mp inRest
    obtain rfl := Option.some.inj same
    obtain ⟨rfl, starts⟩ := (cutUnits_eq_some _ _ _ _).mp isStart
    obtain ⟨rfl, sized⟩ := (cutUnits_eq_some _ _ _ _).mp isCovered
    exact ⟨before, after, rfl, starts, sized⟩
  · rintro ⟨before, after, split, starts, sized⟩
    have isStart := (cutUnits_eq_some text before (covered ++ after) _).mpr ⟨split, starts⟩
    have isCovered := (cutUnits_eq_some (covered ++ after) covered after _).mpr ⟨rfl, sized⟩
    rw [slice, isStart]
    simp [isCovered]

/-- A text splits for an entity in one way at most. -/
theorem Covers.unique {entity : Entity} {text before covered after otherBefore otherCovered
    otherAfter : List Char} (covers : entity.Covers text before covered after)
    (others : entity.Covers text otherBefore otherCovered otherAfter) :
    before = otherBefore ∧ covered = otherCovered ∧ after = otherAfter := by
  have first := (cutUnits_eq_some text before _ _).mpr ⟨covers.split, covers.starts⟩
  have second := (cutUnits_eq_some text otherBefore _ _).mpr ⟨others.split, others.starts⟩
  obtain ⟨sameBefore, sameRest⟩ := Prod.mk.inj (Option.some.inj (first.symm.trans second))
  have inFirst := (cutUnits_eq_some _ covered after _).mpr ⟨rfl, covers.sized⟩
  have inSecond := (cutUnits_eq_some _ otherCovered otherAfter _).mpr ⟨rfl, others.sized⟩
  rw [sameRest] at inFirst
  obtain ⟨sameCovered, sameAfter⟩ := Prod.mk.inj (Option.some.inj (inFirst.symm.trans inSecond))
  exact ⟨sameBefore, sameCovered, sameAfter⟩

/-- By byte positions the slice never breaks down. -/
theorem sliceAt_eq (entity : Entity) (text : List Char) :
    entity.sliceAt text = some (entity.slice text) := by
  rw [sliceAt, slice, scanUnits_eq_byteIndex, byteIndex]
  cases isStart : cutUnits text entity.start.toNat with
  | none => rfl
  | some parts =>
      obtain ⟨before, rest⟩ := parts
      obtain ⟨rfl, -⟩ := (cutUnits_eq_some _ _ _ _).mp isStart
      dsimp only [Option.map_some, Option.bind_eq_bind, Option.bind_some]
      rw [fromByte_append, Option.bind_some, scanUnits_eq_byteIndex, byteIndex]
      cases isCovered : cutUnits rest entity.offset.toNat with
      | none => rfl
      | some parts =>
          obtain ⟨covered, after⟩ := parts
          obtain ⟨rfl, -⟩ := (cutUnits_eq_some _ _ _ _).mp isCovered
          dsimp only [Option.map_some]
          rw [betweenBytes_append]
          rfl

/-- The slice is exact for every text and every range. It finds the covered part exactly if the
range fits the text, there is only one way to fit, and by byte positions it never breaks down. -/
theorem slice_exact (entity : Entity) (text : List Char) :
    (∀ covered, entity.slice text = some covered ↔
      ∃ before after, entity.Covers text before covered after) ∧
    (entity.slice text = none ↔
      ¬ ∃ before covered after, entity.Covers text before covered after) ∧
    (∀ before covered after otherBefore otherCovered otherAfter,
      entity.Covers text before covered after →
        entity.Covers text otherBefore otherCovered otherAfter →
          before = otherBefore ∧ covered = otherCovered ∧ after = otherAfter) ∧
    entity.sliceAt text = some (entity.slice text) := by
  refine ⟨fun covered => slice_eq_some_iff, ?_, fun _ _ _ _ _ _ => Covers.unique,
    entity.sliceAt_eq text⟩
  rw [Option.eq_none_iff_forall_ne_some]
  constructor
  · rintro missing ⟨before, covered, after, covers⟩
    exact missing covered (slice_eq_some_iff.mpr ⟨before, after, covers⟩)
  · intro missing covered found
    obtain ⟨before, after, covers⟩ := slice_eq_some_iff.mp found
    exact missing ⟨before, covered, after, covers⟩

end Entity

end DiceChat
