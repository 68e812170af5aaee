import Mathlib.Data.List.Chain
import DiceChat.Proofs.Entity.Tiling
import DiceChat.Proofs.Message.Reading

/-!
This file merges plain pieces before they are laid out. Laying out the merged pieces gives the
merged entities, so what holds of pieces and their layout holds of the entities of a message.
-/

namespace DiceChat

/-- A plain piece becomes a text entity. -/
def Piece.isPlain (piece : Piece) : Bool := piece.mark == .text

/-- Two plain pieces in a row become one with both sources and both texts. -/
def joinPlain (piece : Piece) : List Piece → List Piece
  | [] => [piece]
  | next :: others =>
      if piece.isPlain && next.isPlain then
        ⟨piece.source ++ next.source, piece.text ++ next.text, .text⟩ :: others
      else piece :: next :: others

/-- A merged list has no two plain pieces in a row. -/
def mergePlain (pieces : List Piece) : List Piece := pieces.foldr joinPlain []

@[simp] theorem mergePlain_nil : mergePlain [] = [] := rfl

@[simp] theorem mergePlain_cons (piece : Piece) (others : List Piece) :
    mergePlain (piece :: others) = joinPlain piece (mergePlain others) := rfl

@[simp] theorem Piece.isPlain_plain (text : List Char) : (Piece.plain text).isPlain = true := rfl

/-- Exactly the plain pieces have a text body. -/
theorem Piece.kind_body (piece : Piece) (face : UInt32) :
    ((piece.mark.body face).kind == .text) = piece.isPlain := by
  rw [isPlain]
  cases piece.mark <;> rfl

/-- Joining a piece lays out as joining its entity. -/
theorem layout_joinPlain (face : UInt32) (start : Nat) (piece : Piece) (others : List Piece) :
    layout face start (joinPlain piece others) =
      joinText ⟨UInt64.ofNat start, UInt64.ofNat (Text.units piece.text), piece.mark.body face⟩
        (layout face (start + Text.units piece.text) others) := by
  cases others with
  | nil => rfl
  | cons next others =>
      rw [joinPlain, layout, joinText, Entity.isText, Entity.isText, Entity.kind, Entity.kind,
        Piece.kind_body, Piece.kind_body]
      split
      · rename_i both
        have plain : piece.mark = .text := by simp_all [Piece.isPlain]
        rw [layout, Text.units_append, UInt64.ofNat_add, ← Nat.add_assoc, plain]
      · rw [layout, layout]

/-- Merging commutes with the layout. -/
theorem mergeText_layout (face : UInt32) (start : Nat) (pieces : List Piece) :
    mergeText (layout face start pieces) = layout face start (mergePlain pieces) := by
  induction pieces generalizing start with
  | nil => rfl
  | cons piece others ih =>
      rw [layout, mergeText_cons, ih, mergePlain_cons, layout_joinPlain]

/-- What a join adds up is what its parts add up. -/
theorem flatMap_joinPlain {Item : Type} (view : Piece → List Item)
    (joined : ∀ first second : Piece, first.isPlain = true → second.isPlain = true →
      view ⟨first.source ++ second.source, first.text ++ second.text, .text⟩ =
        view first ++ view second)
    (piece : Piece) (others : List Piece) :
    (joinPlain piece others).flatMap view = view piece ++ others.flatMap view := by
  cases others with
  | nil => simp [joinPlain]
  | cons next others =>
      rw [joinPlain]
      split
      · rename_i both
        obtain ⟨first, second⟩ := Bool.and_eq_true_iff.mp both
        rw [List.flatMap_cons, List.flatMap_cons, joined piece next first second,
          List.append_assoc]
      · rfl

/-- What a merge adds up is what its pieces add up. -/
theorem flatMap_mergePlain {Item : Type} (view : Piece → List Item)
    (joined : ∀ first second : Piece, first.isPlain = true → second.isPlain = true →
      view ⟨first.source ++ second.source, first.text ++ second.text, .text⟩ =
        view first ++ view second)
    (pieces : List Piece) : (mergePlain pieces).flatMap view = pieces.flatMap view := by
  induction pieces with
  | nil => rfl
  | cons piece others ih =>
      rw [mergePlain_cons, flatMap_joinPlain view joined, ih, List.flatMap_cons]

/-- Merging keeps the text. -/
theorem textOf_mergePlain (pieces : List Piece) : textOf (mergePlain pieces) = textOf pieces :=
  flatMap_mergePlain Piece.text (fun _ _ _ _ => rfl) pieces

/-- Merging keeps the source. -/
theorem source_mergePlain (pieces : List Piece) :
    (mergePlain pieces).flatMap Piece.source = pieces.flatMap Piece.source :=
  flatMap_mergePlain Piece.source (fun _ _ _ _ => rfl) pieces

/-- Two plain pieces in a row merge like one. -/
theorem mergePlain_plain (first second : List Char) (others : List Piece) :
    mergePlain (.plain first :: .plain second :: others) =
      mergePlain (.plain (first ++ second) :: others) := by
  have onPlain (text : List Char) {next : Piece} (later : List Piece)
      (plain : next.isPlain = true) : joinPlain (.plain text) (next :: later) =
        ⟨text ++ next.source, text ++ next.text, .text⟩ :: later := by
    rw [joinPlain, Piece.isPlain_plain, plain]
    rfl
  have onMarked (text : List Char) {next : Piece} (later : List Piece)
      (marked : next.isPlain = false) :
      joinPlain (.plain text) (next :: later) = .plain text :: next :: later := by
    rw [joinPlain, Piece.isPlain_plain, marked]
    rfl
  simp only [mergePlain_cons]
  cases mergePlain others with
  | nil => rfl
  | cons next later =>
      cases plain : next.isPlain with
      | true =>
          rw [onPlain second later plain, onPlain (first ++ second) later plain,
            onPlain first later (by rfl), List.append_assoc, List.append_assoc]
      | false =>
          rw [onMarked second later plain, onMarked (first ++ second) later plain,
            onPlain first (next :: later) (Piece.isPlain_plain second)]
          rfl

/-- Faithful plain pieces join to a faithful piece. -/
theorem Piece.Faithful.join {first second : Piece} (firstFaithful : first.Faithful)
    (secondFaithful : second.Faithful) (firstPlain : first.isPlain = true)
    (secondPlain : second.isPlain = true) :
    Piece.Faithful ⟨first.source ++ second.source, first.text ++ second.text, .text⟩ := by
  have whole {piece : Piece} (faithful : piece.Faithful) (plain : piece.isPlain = true) :
      piece.source = piece.text := by
    have spelled := faithful.spelled 0
    rwa [show piece.mark = .text from by simpa [isPlain] using plain] at spelled
  refine ⟨?_, fun face => ?_, nofun⟩
  · simp [firstFaithful.filled]
  · change first.source ++ second.source = first.text ++ second.text
    rw [whole firstFaithful firstPlain, whole secondFaithful secondPlain]

/-- Merging keeps pieces faithful. -/
theorem mergePlain_faithful {pieces : List Piece} (faithful : ∀ piece ∈ pieces, piece.Faithful) :
    ∀ piece ∈ mergePlain pieces, piece.Faithful := by
  induction pieces with
  | nil => simp
  | cons first others ih =>
      obtain ⟨firstFaithful, othersFaithful⟩ := List.forall_mem_cons.mp faithful
      have merged := ih othersFaithful
      rw [mergePlain_cons]
      cases same : mergePlain others with
      | nil => simpa [joinPlain] using firstFaithful
      | cons second later =>
          rw [same] at merged
          obtain ⟨secondFaithful, laterFaithful⟩ := List.forall_mem_cons.mp merged
          rw [joinPlain]
          split
          · rename_i both
            obtain ⟨firstPlain, secondPlain⟩ := Bool.and_eq_true_iff.mp both
            exact List.forall_mem_cons.mpr
              ⟨firstFaithful.join secondFaithful firstPlain secondPlain, laterFaithful⟩
          · exact List.forall_mem_cons.mpr ⟨firstFaithful, merged⟩

/-- A merged list never has two plain pieces in a row. -/
theorem mergePlain_isChain (pieces : List Piece) :
    (mergePlain pieces).IsChain fun first second =>
      ¬ (first.isPlain = true ∧ second.isPlain = true) := by
  induction pieces with
  | nil => exact .nil
  | cons piece others ih =>
      rw [mergePlain_cons]
      cases same : mergePlain others with
      | nil => exact .singleton piece
      | cons next later =>
          rw [same] at ih
          rw [joinPlain]
          split
          · rename_i both
            -- The joined piece is plain like the one it replaces at the head of the list.
            have plain := (Bool.and_eq_true_iff.mp both).2
            cases later with
            | nil => exact .singleton _
            | cons third rest =>
                obtain ⟨apart, chain⟩ := List.isChain_cons_cons.mp ih
                exact List.isChain_cons_cons.mpr ⟨fun twice => apart ⟨plain, twice.2⟩, chain⟩
          · rename_i apart
            exact List.isChain_cons_cons.mpr
              ⟨fun twice => apart (Bool.and_eq_true_iff.mpr twice), ih⟩

/-- The layout of pieces tiles their text. -/
theorem layout_tiles (face : UInt32) (start : Nat) (pieces : List Piece)
    (fits : start + Text.units (textOf pieces) < UInt64.size) :
    Tiles start (layout face start pieces) (pieces.map Piece.text) := by
  induction pieces generalizing start with
  | nil => trivial
  | cons piece others ih =>
      rw [textOf, List.flatMap_cons, Text.units_append] at fits
      refine ⟨UInt64.toNat_ofNat_of_lt' (by omega), UInt64.toNat_ofNat_of_lt' (by omega), ?_⟩
      apply ih
      rw [textOf]
      omega

end DiceChat
