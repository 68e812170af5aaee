import Mathlib.Data.List.Forall2
import DiceChat.Entity.Coverage

/-!
This file says when entities tile a text: each one starts where the one before it ends and is as
long as its own part of the text. The parts are exactly what the entities cover, and the coverage
check accepts every tiled text.
-/

namespace DiceChat

/-- Each entity covers its own part, and the parts follow each other from a position on. -/
def Tiles : Nat → List Entity → List (List Char) → Prop
  | _, [], [] => True
  | start, entity :: others, part :: parts =>
      entity.start.toNat = start ∧ entity.offset.toNat = Text.units part ∧
        Tiles (start + Text.units part) others parts
  | _, _, _ => False

/-- The parts of tiled entities are found in any text that continues them. -/
theorem slice_of_tiles {start : Nat} {entities : List Entity} {parts : List (List Char)}
    (tiled : Tiles start entities parts) (front : List Char) (placed : Text.units front = start) :
    List.Forall₂ (fun entity part => entity.slice (front ++ parts.flatten) = some part)
      entities parts := by
  induction parts generalizing start entities front with
  | nil =>
      cases entities with
      | nil => exact .nil
      | cons entity others => exact tiled.elim
  | cons part parts ih =>
      cases entities with
      | nil => exact tiled.elim
      | cons entity others =>
          obtain ⟨begins, sized, later⟩ := tiled
          refine .cons ?_ ?_
          · have first := (Text.cutUnits_eq_some (front ++ (part ++ parts.flatten)) front
              (part ++ parts.flatten) entity.start.toNat).mpr ⟨rfl, placed.trans begins.symm⟩
            have second := (Text.cutUnits_eq_some (part ++ parts.flatten) part parts.flatten
              entity.offset.toNat).mpr ⟨rfl, sized.symm⟩
            rw [List.flatten_cons, Entity.slice, first]
            simp [second]
          · have rest := ih later (front ++ part) (by rw [Text.units_append, placed])
            simpa only [List.flatten_cons, List.append_assoc] using rest

/-- Entities over parts that are not empty are not empty. -/
theorem offset_pos_of_tiles {start : Nat} {entities : List Entity} {parts : List (List Char)}
    (tiled : Tiles start entities parts) (filled : ∀ part ∈ parts, part ≠ []) :
    ∀ entity ∈ entities, 1 ≤ entity.offset := by
  induction parts generalizing start entities with
  | nil =>
      cases entities with
      | nil => simp
      | cons entity others => exact tiled.elim
  | cons part parts ih =>
      cases entities with
      | nil => exact tiled.elim
      | cons entity others =>
          obtain ⟨-, sized, later⟩ := tiled
          obtain ⟨partFilled, partsFilled⟩ := List.forall_mem_cons.mp filled
          refine List.forall_mem_cons.mpr ⟨?_, ih later partsFilled⟩
          have positive : Text.units part ≠ 0 := fun zero =>
            partFilled ((Text.measure_eq_zero Text.unitSize_positive part).mp zero)
          rw [UInt64.le_iff_toNat_le, sized]
          exact Nat.pos_of_ne_zero positive

/-- Entities tile behind each other if and only if the second ones go on where the first ones
end. -/
theorem tiles_append {start : Nat} {first second : List Entity} {parts : List (List Char)} :
    Tiles start (first ++ second) parts ↔ ∃ firstParts secondParts,
      parts = firstParts ++ secondParts ∧ Tiles start first firstParts ∧
        Tiles (start + Text.units firstParts.flatten) second secondParts := by
  induction first generalizing start parts with
  | nil =>
      constructor
      · intro tiled
        exact ⟨[], parts, rfl, trivial, tiled⟩
      · rintro ⟨firstParts, secondParts, rfl, tiled, behind⟩
        cases firstParts with
        | nil => exact behind
        | cons part parts => exact tiled.elim
  | cons entity others ih =>
      cases parts with
      | nil =>
          constructor
          · intro tiled
            exact tiled.elim
          · rintro ⟨firstParts, secondParts, empty, tiled, -⟩
            obtain ⟨rfl, -⟩ := List.append_eq_nil_iff.mp empty.symm
            exact tiled.elim
      | cons part parts =>
          constructor
          · rintro ⟨begins, sized, later⟩
            obtain ⟨firstParts, secondParts, rfl, tiled, behind⟩ := ih.mp later
            refine ⟨part :: firstParts, secondParts, rfl, ⟨begins, sized, tiled⟩, ?_⟩
            rwa [List.flatten_cons, Text.units_append, ← Nat.add_assoc]
          · rintro ⟨firstParts, secondParts, split, tiled, behind⟩
            cases firstParts with
            | nil => exact tiled.elim
            | cons first firstParts =>
                obtain ⟨rfl, rfl⟩ := List.cons.inj split
                obtain ⟨begins, sized, tiled⟩ := tiled
                rw [List.flatten_cons, Text.units_append, ← Nat.add_assoc] at behind
                exact ⟨begins, sized, ih.mpr ⟨firstParts, secondParts, rfl, tiled, behind⟩⟩

/-- The length of a tiling is settled by its entities. -/
theorem units_eq_of_tiles {start : Nat} {entities : List Entity} {first second : List (List Char)}
    (firstTiled : Tiles start entities first) (secondTiled : Tiles start entities second) :
    Text.units first.flatten = Text.units second.flatten := by
  induction entities generalizing start first second with
  | nil =>
      cases first with
      | nil =>
          cases second with
          | nil => rfl
          | cons part parts => exact secondTiled.elim
      | cons part parts => exact firstTiled.elim
  | cons entity others ih =>
      match first, second, firstTiled, secondTiled with
      | firstPart :: firstParts, secondPart :: secondParts, ⟨_, firstSize, firstLater⟩,
          ⟨_, secondSize, secondLater⟩ =>
          have same : Text.units firstPart = Text.units secondPart :=
            firstSize.symm.trans secondSize
          rw [← same] at secondLater
          rw [List.flatten_cons, List.flatten_cons, Text.units_append, Text.units_append, same,
            ih firstLater secondLater]

/-- The check passes tiled entities and goes on behind them. -/
theorem coverageFrom_of_tiles {length expected : Nat} {entities : List Entity}
    {parts : List (List Char)} (tiled : Tiles expected entities parts)
    (within : expected + Text.units parts.flatten ≤ length) (fits : length < UInt64.size)
    (index : Nat) (rest : List Char) (later : List Entity) :
    coverageFrom length index expected (parts.flatten ++ rest) (entities ++ later) =
      coverageFrom length (index + entities.length) (expected + Text.units parts.flatten) rest
        later := by
  induction parts generalizing index expected entities with
  | nil =>
      cases entities with
      | nil => rfl
      | cons entity others => exact tiled.elim
  | cons part parts ih =>
      cases entities with
      | nil => exact tiled.elim
      | cons entity others =>
          obtain ⟨begins, sized, behind⟩ := tiled
          rw [List.flatten_cons, Text.units_append, ← Nat.add_assoc] at within ⊢
          have ends : entity.stop = expected + Text.units part := by
            rw [Entity.stop, begins, sized]
            omega
          have found := (Text.cutUnits_eq_some (part ++ (parts.flatten ++ rest)) part
            (parts.flatten ++ rest) entity.offset.toNat).mpr ⟨rfl, sized.symm⟩
          have counted : index + (entity :: others).length = index + 1 + others.length := by
            rw [List.length_cons]
            omega
          rw [List.cons_append, coverageFrom, if_neg (by omega), if_neg (by omega),
            if_neg (by omega), List.append_assoc, found, ends, counted]
          exact ih behind within (index + 1)

/-- The check accepts every tiled text. -/
theorem coverage_of_tiles {entities : List Entity} {parts : List (List Char)}
    (tiled : Tiles 0 entities parts) (fits : Text.units parts.flatten < UInt64.size) :
    coverage parts.flatten entities = .ok () := by
  have passed := coverageFrom_of_tiles tiled (Nat.le_of_eq (Nat.zero_add _)) fits 0 [] []
  rw [List.append_nil, List.append_nil] at passed
  rw [coverage, passed, coverageFrom, if_pos (Nat.zero_add _)]

end DiceChat
