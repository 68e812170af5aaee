import DiceChat.Proofs.Wire.Records
import DiceChat.Wire.Message

/-!
This file shows that reading a stored value undoes writing it, for every type that is stored. It
does so in every form of the value: a reader meets its own fields first, and they vary with the
record, so the proofs follow the values and use what is known of their parts.
-/

namespace DiceChat

open Json

namespace Json

/-- Reading undoes writing if a written value is read back, and so is every other form of it. -/
def Undoes {Value : Type} (decode : Json → Option Value) (encode : Value → Json) : Prop :=
  ∀ value, decode (encode value) = some value ∧
    ∀ json, (encode value).Varies json → decode json = some value

theorem undoes_of_varies {Value : Type} {decode : Json → Option Value} {encode : Value → Json}
    (found : ∀ {value json}, (encode value).Varies json → decode json = some value) :
    Undoes decode encode :=
  fun _ => ⟨found (.same _), fun _ varies => found varies⟩

theorem toNatBelow?_int {bound value : Nat} (below : value < bound) :
    toNatBelow? bound (.int value) = some value := by
  simp [toNatBelow?, below]

theorem Varies.toUInt32? {value : UInt32} {json : Json}
    (varies : Varies (.ofUInt32 value) json) : json.toUInt32? = some value := by
  rw [varies_int.mp varies, Json.toUInt32?, toNatBelow?_int value.toNat_lt, Option.map_some,
    UInt32.ofNat_toNat]

theorem Varies.toUInt64? {value : UInt64} {json : Json}
    (varies : Varies (.ofUInt64 value) json) : json.toUInt64? = some value := by
  rw [varies_int.mp varies, Json.toUInt64?, toNatBelow?_int value.toNat_lt, Option.map_some,
    UInt64.ofNat_toNat]

theorem Varies.toInt64? {value : Int64} {json : Json}
    (varies : Varies (.ofInt64 value) json) : json.toInt64? = some value := by
  rw [varies_int.mp varies, Json.toInt64?, if_pos ⟨value.minValue_le_toInt, value.toInt_le⟩,
    Int64.ofInt_toInt]

theorem Varies.toString? {text : String} {json : Json} (varies : Varies (.str text) json) :
    json.toString? = some text := by
  rw [varies_str.mp varies, Json.toString?]

theorem Varies.toName? {name : String} {json : Json} (varies : Varies (.str name) json)
    (place : Place) : json.toName? place = some name := by
  rw [varies_str.mp varies, Json.toName?]

end Json

theorem Seed.ofJson?_of_varies {seed : Seed} {json : Json} (varies : seed.toJson.Varies json) :
    Seed.ofJson? json = some seed := by
  rw [Seed.ofJson?, Varies.toUInt32? varies, Option.map_some]

theorem Operator.ofJsonAt?_of_varies (place : Place) {operator : Operator} {json : Json}
    (varies : operator.toJson.Varies json) : Operator.ofJsonAt? place json = some operator := by
  rw [Operator.ofJsonAt?, varies.toName? place, Option.bind_some]
  cases operator <;> rfl

theorem EntityKind.ofJson?_of_varies {kind : EntityKind} {json : Json}
    (varies : kind.toJson.Varies json) : EntityKind.ofJson? json = some kind := by
  rw [EntityKind.ofJson?, varies.toName? .outer, Option.bind_some]
  cases kind <;> rfl

theorem Expr.shapes_distinct : ∀ shape ∈ Expr.shapes, ("type" :: shape.2).Nodup := by decide

/-- An expression is read back in every form and at every place. -/
theorem Expr.ofJsonAt?_of_varies (place : Place) {expr : Expr} {json : Json}
    (varies : (Expr.toJson expr).Varies json) : Expr.ofJsonAt? place json = some expr := by
  -- The operands are fields whatever the place of the whole is, and each has a form of its own.
  induction expr generalizing place json with
  | num value =>
      obtain ⟨_, found, each⟩ := varies.variant Expr.shapes_distinct rfl place
      obtain _ | ⟨number, _ | _⟩ := each
      rw [Expr.ofJsonAt?, found]
      simp [number.toInt64?]
  | roll counter face =>
      obtain ⟨_, found, each⟩ := varies.variant Expr.shapes_distinct rfl place
      obtain _ | ⟨count, _ | ⟨sides, _ | _⟩⟩ := each
      rw [Expr.ofJsonAt?, found]
      simp [count.toUInt32?, sides.toUInt32?]
  | binary operator left right leftFound rightFound =>
      obtain ⟨_, found, each⟩ := varies.variant Expr.shapes_distinct rfl place
      obtain _ | ⟨symbol, _ | ⟨first, _ | ⟨second, _ | _⟩⟩⟩ := each
      rw [Expr.ofJsonAt?, found]
      simp [Operator.ofJsonAt?_of_varies .field symbol, leftFound .field first,
        rightFound .field second]

theorem Evaluated.shapes_distinct :
    ∀ shape ∈ Evaluated.shapes, ("type" :: shape.2).Nodup := by decide

/-- An evaluated expression is read back in every form, with the sides of its dice. -/
theorem Evaluated.ofJsonAt?_of_varies (place : Place) {node : Evaluated} {json : Json}
    (varies : node.toJson.Varies json) : Evaluated.ofJsonAt? place json = some node := by
  induction node generalizing place json with
  | num value =>
      obtain ⟨_, found, each⟩ := varies.variant Evaluated.shapes_distinct rfl place
      obtain _ | ⟨number, _ | _⟩ := each
      rw [Evaluated.ofJsonAt?, found]
      simp [number.toInt64?]
  | roll counter face values value =>
      obtain ⟨_, found, each⟩ := varies.variant Evaluated.shapes_distinct rfl place
      obtain _ | ⟨count, _ | ⟨sides, _ | ⟨drawn, _ | ⟨total, _ | _⟩⟩⟩⟩ := each
      obtain ⟨items, listed, read⟩ := drawn.mapM Varies.toInt64?
      rw [Evaluated.ofJsonAt?, found]
      simp [count.toUInt32?, sides.toUInt32?, listed, read, total.toInt64?]
  | binary operator left right value leftFound rightFound =>
      obtain ⟨_, found, each⟩ := varies.variant Evaluated.shapes_distinct rfl place
      obtain _ | ⟨symbol, _ | ⟨first, _ | ⟨second, _ | ⟨result, _ | _⟩⟩⟩⟩ := each
      rw [Evaluated.ofJsonAt?, found]
      simp [Operator.ofJsonAt?_of_varies .field symbol, leftFound .field first,
        rightFound .field second, result.toInt64?]

theorem EvalError.shapes_distinct :
    ∀ shape ∈ EvalError.shapes, ("kind" :: shape.2).Nodup := by decide

theorem EvalError.ofJsonAt?_of_varies (place : Place) {error : EvalError} {json : Json}
    (varies : error.toJson.Varies json) : EvalError.ofJsonAt? place json = some error := by
  cases error with
  | divisionByZero | overflow | zeroFace =>
      obtain ⟨_, found, _ | _⟩ := varies.variant EvalError.shapes_distinct rfl place
      simp [EvalError.ofJsonAt?, found, EvalError.name]
  | tooManyDice counter most =>
      obtain ⟨_, found, each⟩ := varies.variant EvalError.shapes_distinct rfl place
      obtain _ | ⟨count, _ | ⟨limit, _ | _⟩⟩ := each
      simp [EvalError.ofJsonAt?, found, EvalError.name, count.toUInt32?, limit.toUInt32?]
  | tooDeep most =>
      obtain ⟨_, found, each⟩ := varies.variant EvalError.shapes_distinct rfl place
      obtain _ | ⟨limit, _ | _⟩ := each
      simp [EvalError.ofJsonAt?, found, EvalError.name, limit.toUInt64?]

theorem Outcome.shapes_distinct :
    ∀ shape ∈ Outcome.shapes, ("status" :: shape.2).Nodup := by decide

theorem Outcome.ofJsonAt?_of_varies (place : Place) {outcome : Outcome} {json : Json}
    (varies : outcome.toJson.Varies json) : Outcome.ofJsonAt? place json = some outcome := by
  cases outcome with
  | evaluated node shown =>
      obtain ⟨_, found, each⟩ := varies.variant Outcome.shapes_distinct rfl place
      obtain _ | ⟨tree, _ | ⟨text, _ | _⟩⟩ := each
      simp [Outcome.ofJsonAt?, found, Evaluated.ofJsonAt?_of_varies .field tree, text.toString?]
  | invalid error =>
      obtain ⟨_, found, each⟩ := varies.variant Outcome.shapes_distinct rfl place
      obtain _ | ⟨cause, _ | _⟩ := each
      simp [Outcome.ofJsonAt?, found, EvalError.ofJsonAt?_of_varies .field cause]

theorem Entity.shapes_distinct :
    ∀ shape ∈ Entity.shapes, ("type" :: shape.2).Nodup := by decide

/-- An entity is read back in every form. Its range comes first, and what its kind adds after. -/
theorem Entity.ofJson?_of_varies {entity : Entity} {json : Json}
    (varies : entity.toJson.Varies json) : Entity.ofJson? json = some entity := by
  obtain ⟨start, offset, body⟩ := entity
  cases body with
  | text | strong =>
      obtain ⟨_, found, each⟩ := varies.variant Entity.shapes_distinct rfl .outer
      obtain _ | ⟨first, _ | ⟨length, _ | _⟩⟩ := each
      simp [Entity.ofJson?, found, Entity.kind, EntityBody.kind, EntityKind.name,
        first.toUInt64?, length.toUInt64?]
  | link href =>
      obtain ⟨_, found, each⟩ := varies.variant Entity.shapes_distinct rfl .outer
      obtain _ | ⟨first, _ | ⟨length, _ | ⟨target, _ | _⟩⟩⟩ := each
      simp [Entity.ofJson?, found, Entity.kind, EntityBody.kind, EntityKind.name,
        first.toUInt64?, length.toUInt64?, target.toString?]
  | expr node =>
      obtain ⟨_, found, each⟩ := varies.variant Entity.shapes_distinct rfl .outer
      obtain _ | ⟨first, _ | ⟨length, _ | ⟨tree, _ | _⟩⟩⟩ := each
      simp [Entity.ofJson?, found, Entity.kind, EntityBody.kind, EntityKind.name,
        first.toUInt64?, length.toUInt64?, Expr.ofJsonAt?_of_varies .field tree]

theorem ExportEntity.shapes_distinct :
    ∀ shape ∈ ExportEntity.shapes, ("type" :: shape.2).Nodup := by decide

/-- An exported entity is read back in every form, with its text between its range and what its
kind adds. -/
theorem ExportEntity.ofJson?_of_varies {entity : ExportEntity} {json : Json}
    (varies : entity.toJson.Varies json) : ExportEntity.ofJson? json = some entity := by
  obtain ⟨start, offset, text, body⟩ := entity
  cases body with
  | text | strong =>
      obtain ⟨_, found, each⟩ := varies.variant ExportEntity.shapes_distinct rfl .outer
      obtain _ | ⟨first, _ | ⟨length, _ | ⟨shown, _ | _⟩⟩⟩ := each
      simp [ExportEntity.ofJson?, found, ExportBody.kind, EntityKind.name, first.toUInt64?,
        length.toUInt64?, shown.toString?]
  | link href =>
      obtain ⟨_, found, each⟩ := varies.variant ExportEntity.shapes_distinct rfl .outer
      obtain _ | ⟨first, _ | ⟨length, _ | ⟨shown, _ | ⟨target, _ | _⟩⟩⟩⟩ := each
      simp [ExportEntity.ofJson?, found, ExportBody.kind, EntityKind.name, first.toUInt64?,
        length.toUInt64?, shown.toString?, target.toString?]
  | expr outcome =>
      obtain ⟨_, found, each⟩ := varies.variant ExportEntity.shapes_distinct rfl .outer
      obtain _ | ⟨first, _ | ⟨length, _ | ⟨shown, _ | ⟨result, _ | _⟩⟩⟩⟩ := each
      simp [ExportEntity.ofJson?, found, ExportBody.kind, EntityKind.name, first.toUInt64?,
        length.toUInt64?, shown.toString?, Outcome.ofJsonAt?_of_varies .field result]

/-- A message is a record without a tag, and its entities are a list. -/
theorem Message.ofJson?_of_varies {message : Message} {json : Json}
    (varies : message.toJson.Varies json) : Message.ofJson? json = some message := by
  obtain ⟨_, found, each⟩ := varies.fields (by simp)
  obtain _ | ⟨text, _ | ⟨list, _ | _⟩⟩ := each
  obtain ⟨items, listed, read⟩ := list.mapM Entity.ofJson?_of_varies
  simp only [List.map_cons, List.map_nil] at found
  simp [Message.ofJson?, found, text.toString?, listed, read]

/-- Reading undoes writing for every type that is stored. Integers keep their whole range and trees
any depth, and records may be written as objects with unknown members or as arrays at every level,
each in its own way. -/
theorem decoding_undoes_encoding :
    Undoes Entity.ofJson? Entity.toJson ∧
    Undoes EntityKind.ofJson? EntityKind.toJson ∧
    Undoes Expr.ofJson? Expr.toJson ∧
    Undoes Operator.ofJson? Operator.toJson ∧
    Undoes Evaluated.ofJson? Evaluated.toJson ∧
    Undoes EvalError.ofJson? EvalError.toJson ∧
    Undoes Outcome.ofJson? Outcome.toJson ∧
    Undoes ExportEntity.ofJson? ExportEntity.toJson ∧
    Undoes Message.ofJson? Message.toJson ∧
    Undoes Seed.ofJson? Seed.toJson := by
  refine ⟨?_, ?_, ?_, ?_, ?_, ?_, ?_, ?_, ?_, ?_⟩
  · exact undoes_of_varies Entity.ofJson?_of_varies
  · exact undoes_of_varies EntityKind.ofJson?_of_varies
  · exact undoes_of_varies (Expr.ofJsonAt?_of_varies .outer)
  · exact undoes_of_varies (Operator.ofJsonAt?_of_varies .outer)
  · exact undoes_of_varies (Evaluated.ofJsonAt?_of_varies .outer)
  · exact undoes_of_varies (EvalError.ofJsonAt?_of_varies .outer)
  · exact undoes_of_varies (Outcome.ofJsonAt?_of_varies .outer)
  · exact undoes_of_varies ExportEntity.ofJson?_of_varies
  · exact undoes_of_varies Message.ofJson?_of_varies
  · exact undoes_of_varies Seed.ofJson?_of_varies

/-- A product is read back from an object with an unknown member. Its tree is an array that holds an
object in another order and an array. -/
theorem decoding_undoes_encoding_product :
    Entity.ofJson?
        (.obj [("note", .null), ("type", .str "Expr"), ("start", .int 0), ("offset", .int 6),
          ("node", .arr [.str "Binary", .str "×",
            .obj [("value", .int (-2)), ("type", .str "Num")],
            .arr [.str "Roll", .int 1, .int 4294967295]])]) =
      some ⟨0, 6, .expr (.binary .mul (.num (-2)) (.roll 1 4294967295))⟩ := by
  let number : Json := .obj [("value", .int (-2)), ("type", .str "Num")]
  let roll : Json := .arr [.str "Roll", .int 1, .int 4294967295]
  let product : Json := .arr [.str "Binary", .str "×", number, roll]
  have numberForm : (Expr.toJson (.num (-2))).Varies number :=
    @Varies.record _ [("type", .str "Num"), ("value", .int (-2))] _ rfl
      (forall₂_varies_same _) (.object (by decide) (by simp))
  have rollForm : (Expr.toJson (.roll 1 4294967295)).Varies roll :=
    .record rfl (forall₂_varies_same _) .array
  have productForm :
      (Expr.toJson (.binary .mul (.num (-2)) (.roll 1 4294967295))).Varies product :=
    @Varies.record _ [("type", .str "Binary"), ("op", .str "×"), ("l", number), ("r", roll)] _ rfl
      (.cons (.same _) (.cons (.same _) (.cons numberForm (.cons rollForm .nil)))) .array
  obtain ⟨readsEntity, _⟩ := decoding_undoes_encoding
  apply (readsEntity _).2
  exact @Varies.record _ [("type", .str "Expr"), ("start", .int 0), ("offset", .int 6),
      ("node", product)] _ rfl
    (.cons (.same _) (.cons (.same _) (.cons (.same _) (.cons productForm .nil))))
    (.object (by decide) (List.subset_cons_self _ _))

end DiceChat
