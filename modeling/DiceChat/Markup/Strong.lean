/-!
This file recognises strong text: a pair of stars, some text on one line, and the next pair of
stars.
-/

namespace DiceChat.Markup

/-- Strong text stays within one line. -/
def isLineBreak (character : Char) : Bool :=
  character == '\n' || character == '\r' || character == '\u2028' || character == '\u2029'

/-- This reads up to the first closing pair of stars. -/
def closeStrong : List Char → Option (List Char × List Char)
  | [] => none
  | '*' :: '*' :: rest => some ([], rest)
  | character :: rest =>
      if isLineBreak character then none
      else (closeStrong rest).map fun parts => (character :: parts.1, parts.2)

/-- The content has at least one character, which may be a star. -/
def strong : List Char → Option (List Char × List Char)
  | '*' :: '*' :: character :: rest =>
      if isLineBreak character then none
      else (closeStrong rest).map fun parts => (character :: parts.1, parts.2)
  | _ => none

end DiceChat.Markup
