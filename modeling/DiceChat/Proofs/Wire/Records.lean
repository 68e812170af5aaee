import DiceChat.Wire.Variant
import Mathlib.Data.List.Forall2

/-!
This file says which JSON values stand for the same stored value. A record is an object with its
members and perhaps unknown ones, or the array of its values, and each of its values may again be
written either way. Every such form has the same fields.
-/

namespace DiceChat.Json

/-- A record with these members is written as an object that has them all under distinct names, or
as the array of their values. -/
inductive Holds (members : List (String × Json)) : Json → Prop where
  | object {all : List (String × Json)} (distinct : (all.map Prod.fst).Nodup)
      (known : members ⊆ all) : Holds members (.obj all)
  | array : Holds members (.arr (members.map Prod.snd))

/-- A value varies when any of the records in it are written in another form. -/
inductive Varies : Json → Json → Prop where
  | same (json : Json) : Varies json json
  | list {items others : List Json} (each : List.Forall₂ Varies items others) :
      Varies (.arr items) (.arr others)
  | record {members others : List (String × Json)} {json : Json}
      (names : others.map Prod.fst = members.map Prod.fst)
      (each : List.Forall₂ Varies (members.map Prod.snd) (others.map Prod.snd))
      (holds : Holds others json) : Varies (.obj members) json

theorem lookup_of_mem {members : List (String × Json)} {name : String} {value : Json}
    (distinct : (members.map Prod.fst).Nodup) (member : (name, value) ∈ members) :
    members.lookup name = some value := by
  obtain ⟨front, rest, rfl⟩ := List.append_of_mem member
  refine List.lookup_eq_some_iff.mpr ⟨front, rest, rfl, fun other before => ?_⟩
  rw [List.map_append, List.nodup_append] at distinct
  have apart := distinct.2.2 other.1 (List.mem_map_of_mem before) name (by simp)
  simpa using Ne.symm apart

theorem mapM_lookup_of_subset {members all : List (String × Json)}
    (distinct : (all.map Prod.fst).Nodup) (known : members ⊆ all) :
    ((members.map Prod.fst).mapM fun name => all.lookup name) =
      some (members.map Prod.snd) := by
  induction members with
  | nil => rfl
  | cons first others ih =>
      obtain ⟨here, later⟩ := List.cons_subset.mp known
      simp [List.mapM_cons, lookup_of_mem distinct here, ih later]

/-- Both forms of a record have the values of its members. -/
theorem Holds.fields {members : List (String × Json)} {json : Json}
    (holds : Holds members json) :
    json.fields (members.map Prod.fst) = some (members.map Prod.snd) := by
  cases holds with
  | object distinct known => exact mapM_lookup_of_subset distinct known
  | array => simp [Json.fields]

/-- Both forms of a tagged record have the name of its variant and the values of its members. -/
theorem Holds.variant {tag name : String} {members : List (String × Json)} {json : Json}
    (holds : Holds ((tag, .str name) :: members) json) {shapes : Shapes}
    (known : shapes.lookup name = some (members.map Prod.fst)) (place : Place) :
    json.variant tag place shapes = some (name, members.map Prod.snd) := by
  cases holds with
  | object distinct within =>
      obtain ⟨here, later⟩ := List.cons_subset.mp within
      have inside := (Holds.object distinct later).fields
      simp [Json.variant, lookup_of_mem distinct here, shape?, known, inside]
  | array =>
      have inside : Json.fields _ _ = some (members.map Prod.snd) := Holds.array.fields
      simp [Json.variant, shape?, known, inside]

@[simp] theorem varies_str {text : String} {json : Json} :
    Varies (.str text) json ↔ json = .str text := by
  refine ⟨fun varies => ?_, fun same => same ▸ .same _⟩
  cases varies
  rfl

@[simp] theorem varies_int {value : Int} {json : Json} :
    Varies (.int value) json ↔ json = .int value := by
  refine ⟨fun varies => ?_, fun same => same ▸ .same _⟩
  cases varies
  rfl

theorem forall₂_varies_same (items : List Json) : List.Forall₂ Varies items items :=
  List.forall₂_same.mpr fun item _ => .same item

/-- A list varies in its items. -/
theorem varies_arr {items : List Json} {json : Json} :
    Varies (.arr items) json ↔ ∃ others, List.Forall₂ Varies items others ∧ json = .arr others := by
  constructor
  · intro varies
    cases varies with
    | same => exact ⟨items, forall₂_varies_same items, rfl⟩
    | list each => exact ⟨_, each, rfl⟩
  · rintro ⟨others, each, rfl⟩
    exact .list each

/-- A form of a record holds a form of each value. -/
theorem Varies.holds {members : List (String × Json)} {json : Json}
    (varies : Varies (.obj members) json) (distinct : (members.map Prod.fst).Nodup) :
    ∃ others : List (String × Json), others.map Prod.fst = members.map Prod.fst ∧
      List.Forall₂ Varies (members.map Prod.snd) (others.map Prod.snd) ∧ Holds others json := by
  cases varies with
  | same =>
      -- An object that stays as it is has all of its own members and no others.
      exact ⟨members, rfl, forall₂_varies_same _, .object distinct (List.Subset.refl members)⟩
  | record names each holds => exact ⟨_, names, each, holds⟩

/-- The fields of a record vary with it. -/
theorem Varies.fields {members : List (String × Json)} {json : Json}
    (varies : Varies (.obj members) json) (distinct : (members.map Prod.fst).Nodup) :
    ∃ values, json.fields (members.map Prod.fst) = some values ∧
      List.Forall₂ Varies (members.map Prod.snd) values := by
  obtain ⟨others, names, each, holds⟩ := varies.holds distinct
  exact ⟨others.map Prod.snd, names ▸ holds.fields, each⟩

/-- The fields of a tagged record vary with it, and its variant stays. -/
theorem Varies.variant {tag name : String} {members : List (String × Json)} {json : Json}
    {shapes : Shapes} (distinct : ∀ shape ∈ shapes, (tag :: shape.2).Nodup)
    (known : shapes.lookup name = some (members.map Prod.fst))
    (varies : Varies (tagged tag name members) json) (place : Place) :
    ∃ values, json.variant tag place shapes = some (name, values) ∧
      List.Forall₂ Varies (members.map Prod.snd) values := by
  obtain ⟨front, back, whole, _⟩ := List.lookup_eq_some_iff.mp known
  have apart : (tag :: members.map Prod.fst).Nodup :=
    distinct (name, members.map Prod.fst) (by simp [whole])
  obtain ⟨others, names, each, holds⟩ := varies.holds apart
  -- The tag is a string, so it is the same in every form.
  obtain ⟨first, rest, rfl, here, later⟩ := List.map_eq_cons_iff.mp names
  obtain ⟨key, value⟩ := first
  simp only [List.map_cons, List.forall₂_cons, varies_str] at each
  obtain ⟨rfl, each⟩ := each
  obtain rfl : key = tag := here
  exact ⟨rest.map Prod.snd, holds.variant (later ▸ known) place, each⟩

/-- A reader that finds each value in all its forms finds a list of values in all its forms. -/
theorem Varies.mapM {Value : Type} {encode : Value → Json} {decode : Json → Option Value}
    (found : ∀ {value json}, Varies (encode value) json → decode json = some value)
    {values : List Value} {json : Json} (varies : Varies (.arr (values.map encode)) json) :
    ∃ items, json.toArray? = some items ∧ items.mapM decode = some values := by
  obtain ⟨items, each, rfl⟩ := varies_arr.mp varies
  refine ⟨items, rfl, ?_⟩
  rw [List.forall₂_map_left_iff] at each
  clear varies
  induction each with
  | nil => rfl
  | cons here _ ih => simp [List.mapM_cons, found here, ih]

end DiceChat.Json
