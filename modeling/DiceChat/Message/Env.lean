import DiceChat.Text.Decimal

/-!
This file holds the settings that a message is read with.
-/

namespace DiceChat

/-- A die written without a face has this many. -/
def standardFace : UInt32 := 20

/-- The settings choose the face of a bare die, whether expressions are read, and how user names
are resolved. -/
structure Env where
  defaultFace : UInt32 := standardFace
  parseExpr : Bool := true
  usernameResolver : Option (String → Option String) := none

namespace Env

/-- Without a resolver no name is known. -/
def resolveUsername (env : Env) (name : String) : Option String :=
  env.usernameResolver.bind fun resolve => resolve name

/-- This describes the settings; a resolver is shown as a function. -/
def describe (env : Env) : String :=
  "Env \x7b default_face: " ++ String.ofList (Text.natural env.defaultFace.toNat) ++
    ", parse_expr: " ++ (if env.parseExpr then "true" else "false") ++
    ", username_resolver: " ++
    (if env.usernameResolver.isSome then "Some(\"<function>\")" else "None") ++ " \x7d"

end Env

end DiceChat
