import DiceChat.Entity.Cursor

/-!
This file compares the walk over a text with looking up each range on its own. After any history of
look-ups the walk stands between two characters, at the position it counts. So it finds what every
range covers, and by byte positions it never leaves the text or splits a character.
-/

namespace DiceChat

namespace Text

/-- A cut behind a front of the text is a cut of what follows the front. -/
theorem cut_append {size : Char → Nat} (positive : ∀ character, 0 < size character)
    (front rest : List Char) (count : Nat) :
    cut size (front ++ rest) (measure size front + count) =
      (cut size rest count).map fun parts => (front ++ parts.1, parts.2) := by
  induction front with
  | nil => simp
  | cons character front ih =>
      obtain ⟨less, sized⟩ : ∃ less, size character = less + 1 :=
        ⟨size character - 1, by have := positive character; omega⟩
      have total : measure size (character :: front) + count =
          less + (measure size front + count) + 1 := by
        rw [measure_cons, sized]
        omega
      rw [total, List.cons_append, cut, if_pos (by omega), sized,
        show less + (measure size front + count) + 1 - (less + 1) = measure size front + count by
          omega, ih, Option.map_map]
      rfl

/-- Positions count from the start of the text. -/
theorem cutUnits_append (front rest : List Char) (count : Nat) :
    cutUnits (front ++ rest) (units front + count) =
      (cutUnits rest count).map fun parts => (front ++ parts.1, parts.2) :=
  cut_append unitSize_positive front rest count

/-- This is the text from a byte position on. There is none past the end or inside a character. -/
def fromByte (text : List Char) (byte : Nat) : Option (List Char) :=
  (cutBytes text byte).map Prod.snd

/-- This is the text up to a byte position. There is none past the end or inside a character. -/
def upToByte (text : List Char) (byte : Nat) : Option (List Char) :=
  (cutBytes text byte).map Prod.fst

/-- This is the byte position after so many code units. -/
def byteIndex (text : List Char) (count : Nat) : Option Nat :=
  (cutUnits text count).map fun parts => bytes parts.1

@[simp] theorem fromByte_append (front rest : List Char) :
    fromByte (front ++ rest) (bytes front) = some rest := by
  rw [fromByte, (cutBytes_eq_some _ front rest _).mpr ⟨rfl, rfl⟩, Option.map_some]

@[simp] theorem upToByte_append (front rest : List Char) :
    upToByte (front ++ rest) (bytes front) = some front := by
  rw [upToByte, (cutBytes_eq_some _ front rest _).mpr ⟨rfl, rfl⟩, Option.map_some]

end Text

open Text

/-- The walk by positions has passed so many code units and so many bytes. -/
structure ByteCursor where
  text : List Char
  units : Nat
  byte : Nat

namespace ByteCursor

def ofText (text : List Char) : ByteCursor := ⟨text, 0, 0⟩

/-- The walk starts again for a position behind it. -/
def rewindTo (position : Nat) (cursor : ByteCursor) : ByteCursor :=
  if position < cursor.units then ofText cursor.text else cursor

/-- A look-up by positions finds the covered text or none. It breaks down if it takes the text from
or to a position past the end or inside a character, or if it subtracts a larger position. -/
def slice (entity : Entity) (cursor : ByteCursor) : Option (Option (List Char) × ByteCursor) :=
  let found := cursor.rewindTo entity.start.toNat
  if entity.start.toNat < found.units then none
  else
    (fromByte found.text found.byte).bind fun rest =>
      match byteIndex rest (entity.start.toNat - found.units) with
      | none => some (none, found)
      | some skipped =>
          (fromByte found.text (found.byte + skipped)).bind fun later =>
            match byteIndex later entity.offset.toNat with
            | none => some (none, found)
            | some length =>
                (upToByte later length).map fun covered =>
                  (some covered,
                    { found with units := entity.stop, byte := found.byte + skipped + length })

/-- This looks up one entity after the other and breaks down with any of them. -/
def slices : ByteCursor → List Entity → Option (List (Option (List Char)))
  | _, [] => some []
  | cursor, entity :: others =>
      (cursor.slice entity).bind fun found => (slices found.2 others).map (found.1 :: ·)

end ByteCursor

namespace UnitCursor

/-- The walk stands behind a front of the text that has the code units it counts. -/
structure Placed (cursor : UnitCursor) (text front : List Char) : Prop where
  same : cursor.text = text
  split : text = front ++ cursor.rest
  counted : Text.units front = cursor.units

theorem placed_ofText (text : List Char) : (ofText text).Placed text [] := ⟨rfl, rfl, rfl⟩

/-- After rewinding the walk stands at or before the position. -/
theorem Placed.rewindTo {cursor : UnitCursor} {text front : List Char}
    (placed : cursor.Placed text front) (position : Nat) :
    ∃ front, (cursor.rewindTo position).Placed text front ∧ Text.units front ≤ position := by
  rw [UnitCursor.rewindTo]
  split
  · exact ⟨[], placed.same.symm ▸ placed_ofText text, Nat.zero_le _⟩
  · rename_i ahead
    exact ⟨front, placed, placed.counted ▸ Nat.not_lt.mp ahead⟩

/-- This is the walk by positions at the same place. -/
def inBytes (cursor : UnitCursor) : ByteCursor :=
  ⟨cursor.text, cursor.units, Text.bytes cursor.text - Text.bytes cursor.rest⟩

theorem inBytes_ofText (text : List Char) : (ofText text).inBytes = .ofText text := by
  simp [inBytes, ofText, ByteCursor.ofText]

theorem rewindTo_inBytes (cursor : UnitCursor) (position : Nat) :
    cursor.inBytes.rewindTo position = (cursor.rewindTo position).inBytes := by
  have units : cursor.inBytes.units = cursor.units := rfl
  rw [ByteCursor.rewindTo, rewindTo, units]
  split
  · exact (inBytes_ofText cursor.text).symm
  · rfl

/-- The bytes that the walk has passed are those of the front. -/
theorem Placed.byte_eq {cursor : UnitCursor} {text front : List Char}
    (placed : cursor.Placed text front) : cursor.inBytes.byte = Text.bytes front := by
  change Text.bytes cursor.text - Text.bytes cursor.rest = _
  rw [placed.same, placed.split, Text.bytes_append, Nat.add_sub_cancel]

/-- From every place, the walk finds what the range covers and stands at a place again. -/
theorem Placed.slice {cursor : UnitCursor} {text front : List Char}
    (placed : cursor.Placed text front) (fits : Text.units text < UInt64.size) (entity : Entity) :
    (cursor.slice entity).1 = entity.slice text ∧
      ∃ after, (cursor.slice entity).2.Placed text after := by
  obtain ⟨front, found, within⟩ := placed.rewindTo entity.start.toNat
  have position : entity.start.toNat =
      Text.units front + (entity.start.toNat - (cursor.rewindTo entity.start.toNat).units) := by
    rw [← found.counted]
    omega
  have fromStart := Text.cutUnits_append front (cursor.rewindTo entity.start.toNat).rest
    (entity.start.toNat - (cursor.rewindTo entity.start.toNat).units)
  rw [← found.split, ← position] at fromStart
  rw [UnitCursor.slice, Entity.slice, fromStart]
  dsimp only
  split
  · rename_i missing
    rw [missing]
    exact ⟨rfl, front, found⟩
  · rename_i skipped rest isStart
    rw [isStart]
    dsimp only [Option.map_some, Option.bind_eq_bind, Option.bind_some]
    split
    · rename_i missing
      rw [missing]
      exact ⟨rfl, front, found⟩
    · rename_i covered later isCovered
      obtain ⟨startSplit, startUnits⟩ := (Text.cutUnits_eq_some _ _ _ _).mp isStart
      obtain ⟨laterSplit, coveredUnits⟩ := (Text.cutUnits_eq_some _ _ _ _).mp isCovered
      have whole : text = front ++ skipped ++ covered ++ later := by
        rw [found.split, startSplit, laterSplit]
        simp
      have total := congrArg Text.units whole
      simp only [Text.units_append] at total
      rw [isCovered]
      refine ⟨rfl, front ++ skipped ++ covered, found.same, whole, ?_⟩
      -- The text is short, so the end of a range that fits is never clipped.
      change _ = min (entity.start.toNat + entity.offset.toNat) (UInt64.size - 1)
      simp only [Text.units_append]
      omega

/-- By positions the walk never breaks down and takes the same steps. -/
theorem Placed.slice_inBytes {cursor : UnitCursor} {text front : List Char}
    (placed : cursor.Placed text front) (entity : Entity) :
    cursor.inBytes.slice entity =
      some ((cursor.slice entity).1, (cursor.slice entity).2.inBytes) := by
  obtain ⟨front, found, within⟩ := placed.rewindTo entity.start.toNat
  have byte := found.byte_eq
  rw [ByteCursor.slice, rewindTo_inBytes, UnitCursor.slice]
  generalize cursor.rewindTo entity.start.toNat = here at found byte ⊢
  have text_eq : here.inBytes.text = front ++ here.rest := found.same.trans found.split
  have units_eq : here.inBytes.units = here.units := rfl
  have ahead : ¬ entity.start.toNat < here.units := by
    rw [← found.counted]
    omega
  rw [units_eq, if_neg ahead, byte, text_eq, Text.fromByte_append, Option.bind_some, Text.byteIndex]
  cases isStart : Text.cutUnits here.rest (entity.start.toNat - here.units) with
  | none => rfl
  | some parts =>
      obtain ⟨skipped, rest⟩ := parts
      obtain ⟨startSplit, -⟩ := (Text.cutUnits_eq_some _ _ _ _).mp isStart
      dsimp only [Option.map_some]
      rw [startSplit, ← List.append_assoc, ← Text.bytes_append, Text.fromByte_append,
        Option.bind_some, Text.byteIndex]
      cases isCovered : Text.cutUnits rest entity.offset.toNat with
      | none => rfl
      | some parts =>
          obtain ⟨covered, later⟩ := parts
          obtain ⟨laterSplit, -⟩ := (Text.cutUnits_eq_some _ _ _ _).mp isCovered
          dsimp only [Option.map_some]
          have whole : here.text = front ++ skipped ++ (covered ++ later) := by
            rw [found.same, found.split, startSplit, laterSplit, List.append_assoc]
          have passed : Text.bytes here.text - Text.bytes later =
              Text.bytes (front ++ skipped) + Text.bytes covered := by
            rw [whole, Text.bytes_append, Text.bytes_append covered, ← Nat.add_assoc,
              Nat.add_sub_cancel]
          rw [laterSplit, Text.upToByte_append, Option.map_some]
          rw [← whole, ← passed]
          rfl

end UnitCursor

/-- By positions the walk over any entities never breaks down, and it finds what each of them covers
on its own. -/
theorem slices_inBytes {cursor : UnitCursor} {text front : List Char}
    (placed : cursor.Placed text front) (fits : Text.units text < UInt64.size)
    (entities : List Entity) :
    cursor.inBytes.slices entities = some (entities.map fun entity => entity.slice text) := by
  induction entities generalizing cursor front with
  | nil => rfl
  | cons entity others ih =>
      obtain ⟨covered, after, placedAfter⟩ := placed.slice fits entity
      rw [ByteCursor.slices, placed.slice_inBytes, Option.bind_some, ih placedAfter,
        Option.map_some, covered, List.map_cons]

end DiceChat
