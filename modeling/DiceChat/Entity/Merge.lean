import DiceChat.Entity.Basic

/-!
This file merges neighbouring text entities into one.
-/

namespace DiceChat

/-- Two text entities in a row become one that starts with the first and has both lengths. -/
def joinText (entity : Entity) : List Entity → List Entity
  | [] => [entity]
  | next :: others =>
      if entity.isText && next.isText then
        { entity with offset := entity.offset + next.offset } :: others
      else entity :: next :: others

/-- A merged list has no two text entities in a row. -/
def mergeText (entities : List Entity) : List Entity :=
  entities.foldr joinText []

@[simp] theorem mergeText_nil : mergeText [] = [] := rfl

@[simp] theorem mergeText_cons (entity : Entity) (others : List Entity) :
    mergeText (entity :: others) = joinText entity (mergeText others) := rfl

end DiceChat
