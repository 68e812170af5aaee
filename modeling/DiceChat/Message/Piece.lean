import DiceChat.Entity.Basic

/-!
This file holds the pieces that a source is cut into and lays them out as entities.
-/

namespace DiceChat

/-- A piece is marked like the entity it becomes, with expressions as they were written. -/
inductive Mark where
  | text
  | strong
  | link (href : List Char)
  | expr (written : WrittenExpr)
  deriving DecidableEq, Repr

/-- A piece takes some source and contributes some text to the message. -/
structure Piece where
  source : List Char
  text : List Char
  mark : Mark
  deriving DecidableEq, Repr

/-- Plain text is its own source. -/
def Piece.plain (text : List Char) : Piece := ⟨text, text, .text⟩

/-- The given face fills in for every face that was left out. -/
def Mark.body (defaultFace : UInt32) : Mark → EntityBody
  | .text => .text
  | .strong => .strong
  | .link href => .link (String.ofList href)
  | .expr written => .expr (written.fill defaultFace)

/-- This lays the pieces out one after the other from a position on. -/
def layout (defaultFace : UInt32) : Nat → List Piece → List Entity
  | _, [] => []
  | start, piece :: others =>
      ⟨UInt64.ofNat start, UInt64.ofNat (Text.units piece.text), piece.mark.body defaultFace⟩ ::
        layout defaultFace (start + Text.units piece.text) others

/-- The message text is the text of all pieces. -/
def textOf (pieces : List Piece) : List Char := pieces.flatMap Piece.text

end DiceChat
