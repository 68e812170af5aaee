import DiceChat.Proofs.Dice.Overrun
import DiceChat.Proofs.Message.Exporting
import DiceChat.Proofs.Message.Pieces

/-!
This file exports messages that were just read. Their entities tile the text, and no expression ends
in White_Space, because it ends with a leaf or with a closing bracket. So every exported entity
shows all of the text it covers, and together they show all of the text.
-/

namespace DiceChat

open Grammar

/-- The last of visible characters is not White_Space. -/
theorem solid_last_of_isAlphanum {text : List Char} (filled : text ≠ [])
    (word : ∀ character ∈ text, character.isAlphanum = true) :
    ∃ last, text.getLast? = some last ∧ Text.isWhiteSpace last = false := by
  refine ⟨_, List.getLast?_eq_some_getLast filled, ?_⟩
  apply Text.isWhiteSpace_of_visible
  exact Text.visible_of_isAlphanum (word _ (List.getLast_mem filled))

/-- A written text does not end in White_Space. -/
theorem Grammar.Written.solid_last {level : Level} {budget : Nat} {value : WrittenExpr}
    {text : List Char} (written : Written level budget value text) :
    ∃ last, text.getLast? = some last ∧ Text.isWhiteSpace last = false := by
  induction written with
  | roll counterDigits _ faceDigits _ =>
      exact solid_last_of_isAlphanum (by simp) (isAlphanum_of_mem_roll counterDigits faceDigits)
  | num digit filled _ =>
      apply solid_last_of_isAlphanum filled
      intro character member
      exact Bool.or_eq_true_iff.mpr (.inr (digit character member))
  | @group _ _ closing _ _ _ _ closes _ _ _ _ =>
      refine ⟨closing, by simp [List.getLast?_cons], ?_⟩
      rcases closing_cases closes with rfl | rfl | rfl <;> decide
  | single _ _ ih => exact ih
  | linked _ _ _ _ _ _ _ ih =>
      obtain ⟨last, isLast, solid⟩ := ih
      exact ⟨last, by simp [List.getLast?_append, List.getLast?_cons, isLast], solid⟩

/-- Trimming keeps a text that does not end in White_Space. -/
theorem Trimmed.eq_of_solid {covered shown : List Char} {last : Char}
    (trimmed : Trimmed covered shown) (isLast : covered.getLast? = some last)
    (solid : Text.isWhiteSpace last = false) : shown = covered := by
  obtain ⟨blank, whole, white⟩ := trimmed.split
  have nothing : blank = [] := by
    by_contra filled
    rw [whole, List.getLast?_append_of_ne_nil shown filled] at isLast
    exact absurd (white last (List.mem_of_getLast? isLast)) (by simp [solid])
  rw [whole, nothing, List.append_nil]

/-- An entity of a message is exported with all of the text it covers. -/
theorem Exported.slice_eq {env : Env} {source : String} (short : source.utf8ByteSize < 2 ^ 63)
    {entity : Entity} (member : entity ∈ (parse env source).entities) {item : ExportEntity}
    (exported : Exported (parse env source).text.toList entity item) :
    entity.slice (parse env source).text.toList = some item.text.toList := by
  obtain ⟨piece, isPiece, made⟩ := exists_madeOf env source short member
  have shows := exported.shows
  rw [made.slice, Option.getD_some, made.body] at shows
  rw [made.slice, Option.some.injEq]
  cases marked : piece.mark with
  | text | strong | link =>
      rw [marked] at shows
      exact shows.symm
  | expr written =>
      obtain ⟨-, -, same, writes⟩ := expression_of_mem_mergedPieces isPiece marked
      obtain ⟨last, isLast, solid⟩ := writes.solid_last
      rw [marked] at shows
      exact (Trimmed.eq_of_solid shows (same ▸ isLast) solid).symm

/-- For every source and seed, each entity of the message is exported with exactly the text it
covers, expressions included, and the exported texts join to the text of the message. -/
theorem join_toExport_parse (env : Env) (source : String) (seed : Seed)
    (short : source.utf8ByteSize < 2 ^ 63) :
    String.join (((parse env source).toExport seed).map ExportEntity.text) =
        (parse env source).text ∧
      List.Forall₂ (fun entity item =>
          entity.slice (parse env source).text.toList = some item.text.toList)
        (parse env source).entities ((parse env source).toExport seed) := by
  let merged := mergedPieces (Rule.active env source.toList) source.toList
  have text : (parse env source).text.toList = textOf merged := by
    rw [parse, parseWith_eq_layout, String.toList_ofList]
  have fits : Text.units (parse env source).text.toList < UInt64.size :=
    text ▸ mergedPieces_fit _ source short
  have exported := exportFrom_exported (UnitCursor.placed_ofText _) fits (.ofSeed seed)
    (parse env source).entities
  have shown : List.Forall₂ (fun entity item =>
      entity.slice (parse env source).text.toList = some item.text.toList)
      (parse env source).entities ((parse env source).toExport seed) := by
    have members := (List.forall₂_and_left _ _).mpr ⟨fun _ member => member, exported⟩
    exact members.imp fun _ _ both => both.2.slice_eq short both.1
  refine ⟨?_, shown⟩
  have covered := (parse_madeOf env source short).imp fun _ _ made => made.slice
  have same : ((parse env source).toExport seed).map (fun item => item.text.toList) =
      merged.map Piece.text := by
    apply List.map_injective_iff.mpr fun _ _ same => Option.some.inj same
    rw [List.map_map, List.map_map]
    exact (map_eq_map_iff_forall₂.mpr shown).symm.trans (map_eq_map_iff_forall₂.mpr covered)
  rw [← String.toList_inj, String.toList_join, text, List.flatMap_map, List.flatMap_def, same]
  exact List.flatMap_def.symm

/-- The space behind a roll belongs to the text after it, and the space inside it is kept. -/
theorem join_toExport_parse_spaced :
    "🎲 2d6 + 1  **hit**".utf8ByteSize < 2 ^ 63 ∧
      parse {} "🎲 2d6 + 1  **hit**" = ⟨"🎲 2d6 + 1  hit", [⟨0, 3, .text⟩,
        ⟨3, 7, .expr (.binary .add (.roll 2 6) (.num 1))⟩, ⟨10, 2, .text⟩, ⟨12, 3, .strong⟩]⟩ ∧
      ((parse {} "🎲 2d6 + 1  **hit**").toExport ⟨7⟩).map ExportEntity.text =
        ["🎲 ", "2d6 + 1", "  ", "hit"] ∧
      String.join ["🎲 ", "2d6 + 1", "  ", "hit"] = "🎲 2d6 + 1  hit" ∧
      List.Forall₂ (fun (entity : Entity) (item : ExportEntity) =>
          entity.slice "🎲 2d6 + 1  hit".toList = some item.text.toList)
        [⟨0, 3, .text⟩, ⟨3, 7, .expr (.binary .add (.roll 2 6) (.num 1))⟩, ⟨10, 2, .text⟩,
          ⟨12, 3, .strong⟩]
        ((parse {} "🎲 2d6 + 1  **hit**").toExport ⟨7⟩) := by
  have message : parse {} "🎲 2d6 + 1  **hit**" = ⟨"🎲 2d6 + 1  hit", [⟨0, 3, .text⟩,
      ⟨3, 7, .expr (.binary .add (.roll 2 6) (.num 1))⟩, ⟨10, 2, .text⟩, ⟨12, 3, .strong⟩]⟩ := by
    decide +kernel
  have texts : ((parse {} "🎲 2d6 + 1  **hit**").toExport ⟨7⟩).map ExportEntity.text =
      ["🎲 ", "2d6 + 1", "  ", "hit"] := by
    decide +kernel
  obtain ⟨joined, shown⟩ := join_toExport_parse {} "🎲 2d6 + 1  **hit**" ⟨7⟩ (by decide)
  rw [texts] at joined
  rw [message] at joined shown ⊢
  rw [message] at texts
  exact ⟨by decide, rfl, texts, joined, shown⟩

end DiceChat
