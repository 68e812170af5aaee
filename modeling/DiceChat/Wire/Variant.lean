import DiceChat.Wire.Json

/-!
This file reads records and tagged records. A record is an object with named members, of which
unknown ones are ignored, or an array with exactly the values in their order. A tagged record
starts with the name of its variant. A value that is a field of a tagged record is read more
freely: its variant may be given by position, and an empty object may stand for null.
-/

namespace DiceChat.Json

/-- A value stands on its own or is a field of a tagged record. -/
inductive Place where
  | outer
  | field
  deriving DecidableEq, Repr

/-- This tells whether a value counts as no data. -/
def isVoid : Place → Json → Bool
  | _, .null => true
  | .field, .obj [] => true
  | _, _ => false

/-- A name without data is a string, or an object whose only member has that name and no data. -/
def toName? (place : Place) : Json → Option String
  | .str name => some name
  | .obj [(name, value)] => if isVoid place value then some name else none
  | _ => none

/-- This reads the values of the named fields in their order. -/
def fields (names : List String) : Json → Option (List Json)
  | .obj members => names.mapM fun name => members.lookup name
  | .arr items => if items.length = names.length then some items else none
  | _ => none

/-- A tagged type gives each variant a name and its field names. -/
abbrev Shapes := List (String × List String)

/-- A tag is the name of a variant, and in a field also its position. -/
def shape? (place : Place) (shapes : Shapes) : Json → Option (String × List String)
  | .str name => (shapes.lookup name).map fun names => (name, names)
  | .int position =>
      if place = .field ∧ 0 ≤ position then shapes[position.toNat]? else none
  | _ => none

/-- This reads the name of a variant and the values of its fields. -/
def variant (tag : String) (place : Place) (shapes : Shapes) :
    Json → Option (String × List Json)
  | .obj members =>
      ((members.lookup tag).bind (shape? place shapes)).bind fun (name, names) =>
        ((Json.obj members).fields names).map fun values => (name, values)
  | .arr (first :: items) =>
      (shape? place shapes first).bind fun (name, names) =>
        ((Json.arr items).fields names).map fun values => (name, values)
  | _ => none

/-- This writes a tagged record as an object. -/
def tagged (tag name : String) (members : List (String × Json)) : Json :=
  .obj ((tag, .str name) :: members)

theorem sizeOf_lookup {members : List (String × Json)} {name : String} {value : Json}
    (found : members.lookup name = some value) : sizeOf value < sizeOf members := by
  induction members with
  | nil => simp at found
  | cons first others ih =>
      obtain ⟨key, held⟩ := first
      rw [List.lookup_cons] at found
      split at found
      · simp only [Option.some.injEq] at found
        subst found
        simp only [List.cons.sizeOf_spec, Prod.mk.sizeOf_spec]
        omega
      · have := ih found
        simp only [List.cons.sizeOf_spec]
        omega

/-- A field is smaller than its record. -/
theorem sizeOf_fields {names : List String} {json : Json} {values : List Json}
    (found : json.fields names = some values) {value : Json} (member : value ∈ values) :
    sizeOf value < sizeOf json := by
  cases json with
  | obj members =>
      simp only [fields] at found
      have smaller : sizeOf value < sizeOf members := by
        induction names generalizing values with
        | nil =>
            simp only [List.mapM_nil, Option.pure_def, Option.some.injEq] at found
            simp [← found] at member
        | cons name names ih =>
            simp only [List.mapM_cons, Option.bind_eq_bind, Option.bind_eq_some_iff,
              Option.pure_def, Option.some.injEq] at found
            obtain ⟨first, here, others, later, whole⟩ := found
            rw [← whole, List.mem_cons] at member
            rcases member with same | further
            · exact same ▸ sizeOf_lookup here
            · exact ih further later
      simp only [obj.sizeOf_spec]
      omega
  | arr items =>
      simp only [fields] at found
      split at found
      · simp only [Option.some.injEq] at found
        subst found
        have := List.sizeOf_lt_of_mem member
        simp only [arr.sizeOf_spec]
        omega
      · simp at found
  | null => simp [fields] at found
  | bool => simp [fields] at found
  | int => simp [fields] at found
  | decimal => simp [fields] at found
  | str => simp [fields] at found

/-- A field is smaller than its tagged record. -/
theorem sizeOf_variant {tag name : String} {place : Place} {shapes : Shapes} {json : Json}
    {values : List Json} (found : json.variant tag place shapes = some (name, values))
    {value : Json} (member : value ∈ values) : sizeOf value < sizeOf json := by
  unfold variant at found
  split at found
  · simp only [Option.bind_eq_some_iff, Option.map_eq_some_iff, Prod.mk.injEq] at found
    obtain ⟨_, _, _, inside, _, rfl⟩ := found
    exact sizeOf_fields inside member
  · simp only [Option.bind_eq_some_iff, Option.map_eq_some_iff, Prod.mk.injEq] at found
    obtain ⟨_, _, _, inside, _, rfl⟩ := found
    have smaller := sizeOf_fields inside member
    simp only [arr.sizeOf_spec, List.cons.sizeOf_spec] at smaller ⊢
    omega
  · simp at found

end DiceChat.Json
