import DiceChat.Message.Export
import DiceChat.Wire.Dice

/-!
This file stores messages, their entities and their exports as JSON.
-/

namespace DiceChat

/-- A kind is stored as its name. -/
def EntityKind.toJson (kind : EntityKind) : Json := .str kind.name

def EntityKind.ofName? : String → Option EntityKind
  | "Text" => some .text
  | "Strong" => some .strong
  | "Link" => some .link
  | "Expr" => some .expr
  | _ => none

def EntityKind.ofJson? (json : Json) : Option EntityKind := (json.toName? .outer).bind ofName?

def Entity.shapes : Json.Shapes :=
  [("Text", ["start", "offset"]), ("Strong", ["start", "offset"]),
    ("Link", ["start", "offset", "href"]), ("Expr", ["start", "offset", "node"])]

/-- The range comes before what the kind adds. -/
def Entity.toJson (entity : Entity) : Json :=
  .tagged "type" entity.kind.name <|
    ("start", .ofUInt64 entity.start) :: ("offset", .ofUInt64 entity.offset) ::
      match entity.body with
      | .text => []
      | .strong => []
      | .link href => [("href", .str href)]
      | .expr node => [("node", node.toJson)]

def Entity.ofJson? (json : Json) : Option Entity :=
  match json.variant "type" .outer Entity.shapes with
  | some (name, start :: offset :: added) => do
      let start ← start.toUInt64?
      let offset ← offset.toUInt64?
      match name, added with
      | "Text", [] => return ⟨start, offset, .text⟩
      | "Strong", [] => return ⟨start, offset, .strong⟩
      | "Link", [href] => return ⟨start, offset, .link (← href.toString?)⟩
      | "Expr", [node] => return ⟨start, offset, .expr (← Expr.ofJsonAt? .field node)⟩
      | _, _ => none
  | _ => none

def ExportEntity.shapes : Json.Shapes :=
  [("Text", ["start", "offset", "text"]), ("Strong", ["start", "offset", "text"]),
    ("Link", ["start", "offset", "text", "href"]),
    ("Expr", ["start", "offset", "text", "outcome"])]

def ExportBody.kind : ExportBody → EntityKind
  | .text => .text
  | .strong => .strong
  | .link _ => .link
  | .expr _ => .expr

/-- The range and the text come before what the kind adds. -/
def ExportEntity.toJson (entity : ExportEntity) : Json :=
  .tagged "type" entity.body.kind.name <|
    ("start", .ofUInt64 entity.start) :: ("offset", .ofUInt64 entity.offset) ::
      ("text", .str entity.text) ::
      match entity.body with
      | .text => []
      | .strong => []
      | .link href => [("href", .str href)]
      | .expr outcome => [("outcome", outcome.toJson)]

def ExportEntity.ofJson? (json : Json) : Option ExportEntity :=
  match json.variant "type" .outer ExportEntity.shapes with
  | some (name, start :: offset :: text :: added) => do
      let start ← start.toUInt64?
      let offset ← offset.toUInt64?
      let text ← text.toString?
      match name, added with
      | "Text", [] => return ⟨start, offset, text, .text⟩
      | "Strong", [] => return ⟨start, offset, text, .strong⟩
      | "Link", [href] => return ⟨start, offset, text, .link (← href.toString?)⟩
      | "Expr", [outcome] =>
          return ⟨start, offset, text, .expr (← Outcome.ofJsonAt? .field outcome)⟩
      | _, _ => none
  | _ => none

def Message.toJson (message : Message) : Json :=
  .obj [("text", .str message.text), ("entities", .arr (message.entities.map Entity.toJson))]

def Message.ofJson? (json : Json) : Option Message :=
  match json.fields ["text", "entities"] with
  | some [text, entities] => do
      let items ← entities.toArray?
      return ⟨← text.toString?, ← items.mapM Entity.ofJson?⟩
  | _ => none

end DiceChat
