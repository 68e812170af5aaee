/-!
This file recognises written links: a title in square brackets and a target in parentheses right
after it.
-/

namespace DiceChat.Markup

/-- A written link shows its title and leads to its target. -/
structure Link where
  title : List Char
  href : List Char
  deriving DecidableEq, Repr

/-- This reads a run without line feeds up to its closing character, which it takes too. -/
def closeWith (close : Char) : List Char → Option (List Char × List Char)
  | [] => none
  | character :: rest =>
      if character = close then some ([], rest)
      else if character = '\n' then none
      else (closeWith close rest).map fun parts => (character :: parts.1, parts.2)

/-- The title and the target both have at least one character. -/
def link : List Char → Option (Link × List Char)
  | '[' :: input =>
      match closeWith ']' input with
      | some (title, '(' :: later) =>
          match closeWith ')' later with
          | some (href, rest) =>
              if title = [] ∨ href = [] then none else some (⟨title, href⟩, rest)
          | none => none
      | _ => none
  | _ => none

end DiceChat.Markup
