import Mathlib.Algebra.Group.Nat.Defs
import DiceChat.Proofs.Message.Merging

/-!
This file holds the two laws of every parsed message: its entities cover its text, and they spell
its source. Both follow from the merged pieces of the source, which are faithful and lie side by
side.
-/

namespace DiceChat

/-- The entities of a well covered message tile its text, cover something each, and have no two
texts in a row. -/
structure Message.WellCovered (message : Message) : Prop where
  checked : message.coverage = .ok ()
  tiled : ∃ parts, message.text.toList = parts.flatten ∧ Tiles 0 message.entities parts
  filled : ∀ entity ∈ message.entities, 1 ≤ entity.offset
  merged : message.entities.IsChain fun first second =>
    ¬ (first.isText = true ∧ second.isText = true)

/-- The pieces of a source as a message shows them. -/
def mergedPieces (rules : List Rule) (source : List Char) : List Piece :=
  mergePlain (pieces rules source)

/-- A message is the layout of the merged pieces. -/
theorem parseWith_eq_layout (rules : List Rule) (face : UInt32) (source : List Char) :
    parseWith rules face source =
      ⟨String.ofList (textOf (mergedPieces rules source)),
        layout face 0 (mergedPieces rules source)⟩ := by
  rw [parseWith, mergedPieces, textOf_mergePlain, mergeText_layout]

/-- The merged pieces spell the source. -/
theorem mergedPieces_source (rules : List Rule) (source : List Char) :
    (mergedPieces rules source).flatMap Piece.source = source := by
  rw [mergedPieces, source_mergePlain, pieces_source]

/-- The merged pieces are faithful. -/
theorem mergedPieces_faithful (rules : List Rule) (source : List Char) :
    ∀ piece ∈ mergedPieces rules source, piece.Faithful :=
  mergePlain_faithful (pieces_faithful rules source)

/-- Faithful pieces have at most the code units of their source. -/
theorem units_textOf_le {pieces : List Piece} (faithful : ∀ piece ∈ pieces, piece.Faithful) :
    Text.units (textOf pieces) ≤ Text.units (pieces.flatMap Piece.source) := by
  induction pieces with
  | nil => exact Nat.le_refl 0
  | cons piece others ih =>
      obtain ⟨first, later⟩ := List.forall_mem_cons.mp faithful
      have bound := ih later
      have here := first.units_le
      rw [textOf] at bound ⊢
      rw [List.flatMap_cons, List.flatMap_cons, Text.units_append, Text.units_append]
      omega

/-- The text of a short source fits the range of positions. -/
theorem mergedPieces_fit (rules : List Rule) (source : String)
    (short : source.utf8ByteSize < 2 ^ 63) :
    Text.units (textOf (mergedPieces rules source.toList)) < UInt64.size := by
  have bound := units_textOf_le (mergedPieces_faithful rules source.toList)
  rw [mergedPieces_source] at bound
  have inBytes := Text.units_le_bytes source.toList
  rw [Text.bytes_toList] at inBytes
  have size : UInt64.size = 2 ^ 64 := rfl
  omega

/-- The entities of a short source tile the text of its merged pieces. -/
theorem mergedPieces_tile (rules : List Rule) (face : UInt32) (source : String)
    (short : source.utf8ByteSize < 2 ^ 63) :
    Tiles 0 (layout face 0 (mergedPieces rules source.toList))
      ((mergedPieces rules source.toList).map Piece.text) := by
  apply layout_tiles
  rw [Nat.zero_add]
  exact mergedPieces_fit rules source short

/-- Only an empty source has no pieces. -/
theorem mergedPieces_eq_nil (rules : List Rule) (source : List Char) :
    mergedPieces rules source = [] ↔ source = [] := by
  have whole := mergedPieces_source rules source
  have faithful := mergedPieces_faithful rules source
  constructor
  · intro none
    rw [none] at whole
    exact whole.symm
  · intro empty
    subst empty
    cases same : mergedPieces rules [] with
    | nil => rfl
    | cons piece others =>
        rw [same] at whole faithful
        obtain ⟨first, -⟩ := List.forall_mem_cons.mp faithful
        rw [List.flatMap_cons, List.append_eq_nil_iff] at whole
        exact absurd whole.1 first.source_ne_nil

/-- The bodies of a layout are the bodies of its pieces. -/
theorem layout_map_body (face : UInt32) (start : Nat) (pieces : List Piece) :
    (layout face start pieces).map Entity.body = pieces.map fun piece => piece.mark.body face := by
  induction pieces generalizing start with
  | nil => rfl
  | cons piece others ih => rw [layout, List.map_cons, List.map_cons, ih]

/-- An entity is a text exactly if its piece is plain. -/
theorem layout_isText (face : UInt32) (start : Nat) (pieces : List Piece) :
    (layout face start pieces).map Entity.isText = pieces.map Piece.isPlain := by
  have kinds := congrArg (List.map fun body : EntityBody => body.kind == .text)
    (layout_map_body face start pieces)
  simp only [List.map_map, Function.comp_def, Piece.kind_body] at kinds
  exact kinds

/-- The layout of merged pieces has no two texts in a row. -/
theorem layout_isChain {face : UInt32} {pieces : List Piece}
    (apart : pieces.IsChain fun first second => ¬ (first.isPlain = true ∧ second.isPlain = true)) :
    (layout face 0 pieces).IsChain fun first second =>
      ¬ (first.isText = true ∧ second.isText = true) := by
  have marks : (pieces.map Piece.isPlain).IsChain fun first second =>
      ¬ (first = true ∧ second = true) := (List.isChain_map Piece.isPlain).mpr apart
  rw [← layout_isText face 0] at marks
  exact (List.isChain_map Entity.isText).mp marks

/-- Every parsed message is well covered, and only an empty source has no entities. -/
theorem parse_wellCovered (env : Env) (source : String) (short : source.utf8ByteSize < 2 ^ 63) :
    (parse env source).WellCovered ∧ ((parse env source).entities = [] ↔ source = "") := by
  let rules := Rule.active env source.toList
  let merged := mergedPieces rules source.toList
  have parsed : parse env source = ⟨String.ofList (textOf merged), layout env.defaultFace 0 merged⟩ :=
    parseWith_eq_layout rules env.defaultFace source.toList
  have tiled := mergedPieces_tile rules env.defaultFace source short
  have whole : (merged.map Piece.text).flatten = textOf merged := List.flatMap_def.symm
  rw [parsed]
  refine ⟨⟨?_, ⟨merged.map Piece.text, ?_, tiled⟩, ?_, ?_⟩, ?_⟩
  · rw [Message.coverage, String.toList_ofList, ← whole]
    apply coverage_of_tiles tiled
    rw [whole]
    exact mergedPieces_fit rules source short
  · rw [String.toList_ofList, whole]
  · apply offset_pos_of_tiles tiled
    intro part member
    obtain ⟨piece, isPiece, rfl⟩ := List.mem_map.mp member
    exact (mergedPieces_faithful rules source.toList piece isPiece).filled
  · exact layout_isChain (mergePlain_isChain _)
  · rw [← String.toList_eq_nil_iff, ← mergedPieces_eq_nil rules]
    change layout env.defaultFace 0 merged = [] ↔ merged = []
    cases merged <;> simp [layout]

/-- A message with a surrogate pair, strong text and a roll is well covered: the pair counts twice
and the stars not at all. -/
theorem parse_wellCovered_roll :
    "🎲 **hit** 2d6".utf8ByteSize < 2 ^ 63 ∧
      parse {} "🎲 **hit** 2d6" = ⟨"🎲 hit 2d6", [⟨0, 3, .text⟩, ⟨3, 3, .strong⟩, ⟨6, 1, .text⟩,
        ⟨7, 3, .expr (.roll 2 6)⟩]⟩ ∧
      (⟨"🎲 hit 2d6", [⟨0, 3, .text⟩, ⟨3, 3, .strong⟩, ⟨6, 1, .text⟩,
        ⟨7, 3, .expr (.roll 2 6)⟩]⟩ : Message).WellCovered ∧
      ((parse {} "🎲 **hit** 2d6").entities = [] ↔ "🎲 **hit** 2d6" = "") := by
  have message : parse {} "🎲 **hit** 2d6" = ⟨"🎲 hit 2d6", [⟨0, 3, .text⟩, ⟨3, 3, .strong⟩,
      ⟨6, 1, .text⟩, ⟨7, 3, .expr (.roll 2 6)⟩]⟩ := by
    decide +kernel
  obtain ⟨covered, empty⟩ := parse_wellCovered {} "🎲 **hit** 2d6" (by decide)
  exact ⟨by decide, message, message ▸ covered, empty⟩

/-- The source of a message is spelled by its entities, one chunk for each. -/
theorem source_eq_chunks (env : Env) (source : String) (short : source.utf8ByteSize < 2 ^ 63) :
    ∃ chunks : List (List Char), source.toList = chunks.flatten ∧
      List.Forall₂ (fun entity chunk => ∃ covered,
          entity.slice (parse env source).text.toList = some covered ∧
            entity.body.Spells covered chunk)
        (parse env source).entities chunks := by
  let rules := Rule.active env source.toList
  let merged := mergedPieces rules source.toList
  have parsed : parse env source = ⟨String.ofList (textOf merged), layout env.defaultFace 0 merged⟩ :=
    parseWith_eq_layout rules env.defaultFace source.toList
  have slices := slice_of_tiles (mergedPieces_tile rules env.defaultFace source short) [] rfl
  rw [List.nil_append, ← List.flatMap_def, List.forall₂_map_right_iff] at slices
  have sameBodies : List.Forall₂ (fun piece entity => entity.body = piece.mark.body env.defaultFace)
      merged (layout env.defaultFace 0 merged) := by
    have bodies := layout_map_body env.defaultFace 0 merged
    rw [← List.forall₂_eq_eq_eq, List.forall₂_map_left_iff, List.forall₂_map_right_iff] at bodies
    exact bodies.flip
  have bodies := (List.forall₂_and_left _ _).mpr
    ⟨mergedPieces_faithful rules source.toList, sameBodies⟩
  refine ⟨merged.map Piece.source, ?_, ?_⟩
  · rw [← List.flatMap_def]
    exact (mergedPieces_source rules source.toList).symm
  · rw [parsed, String.toList_ofList, List.forall₂_map_right_iff]
    refine slices.mp ?_ bodies.flip
    intro entity piece covers ⟨faithful, sameBody⟩
    refine ⟨piece.text, covers, ?_⟩
    rw [sameBody]
    exact faithful.spelled env.defaultFace

/-- The link, the space and the roll spell one chunk each, and the chunk of the link is the whole
link. -/
theorem source_eq_chunks_link :
    "[🎲](u) 2d6".utf8ByteSize < 2 ^ 63 ∧
      parse {} "[🎲](u) 2d6" =
        ⟨"🎲 2d6", [⟨0, 2, .link "u"⟩, ⟨2, 1, .text⟩, ⟨3, 3, .expr (.roll 2 6)⟩]⟩ ∧
      ∃ chunks, chunks = ["[🎲](u)".toList, " ".toList, "2d6".toList] ∧
        "[🎲](u) 2d6".toList = chunks.flatten ∧
        List.Forall₂ (fun (entity : Entity) chunk => ∃ covered,
            entity.slice "🎲 2d6".toList = some covered ∧ entity.body.Spells covered chunk)
          [⟨0, 2, .link "u"⟩, ⟨2, 1, .text⟩, ⟨3, 3, .expr (.roll 2 6)⟩] chunks := by
  have message : parse {} "[🎲](u) 2d6" =
      ⟨"🎲 2d6", [⟨0, 2, .link "u"⟩, ⟨2, 1, .text⟩, ⟨3, 3, .expr (.roll 2 6)⟩]⟩ := by
    decide +kernel
  obtain ⟨chunks, whole, spelled⟩ := source_eq_chunks {} "[🎲](u) 2d6" (by decide)
  rw [message] at spelled
  have links : (⟨0, 2, .link "u"⟩ : Entity).slice "🎲 2d6".toList = some ['🎲'] := by decide +kernel
  have spaces : (⟨2, 1, .text⟩ : Entity).slice "🎲 2d6".toList = some [' '] := by decide +kernel
  have rolls : (⟨3, 3, .expr (.roll 2 6)⟩ : Entity).slice "🎲 2d6".toList =
      some ['2', 'd', '6'] := by
    decide +kernel
  refine ⟨by decide, message, chunks, ?_, whole, spelled⟩
  rcases spelled with _ | ⟨⟨_, isLink, link⟩, _ | ⟨⟨_, isSpace, rfl⟩, _ | ⟨⟨_, isRoll, rfl⟩, none⟩⟩⟩
  obtain rfl := Option.some.inj (links.symm.trans isLink)
  obtain rfl := Option.some.inj (spaces.symm.trans isSpace)
  obtain rfl := Option.some.inj (rolls.symm.trans isRoll)
  cases none
  -- The title differs from the target, so only the long spelling is left.
  rcases link with ⟨-, same⟩ | rfl
  · exact absurd same (by decide)
  · rfl

end DiceChat
