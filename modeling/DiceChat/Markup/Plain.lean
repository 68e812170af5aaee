import DiceChat.Text.Space

/-!
This file cuts plain text into steps. A step ends wherever markup could start: before a digit, an
opening character, or the first character after space.
-/

namespace DiceChat.Markup

/-- Markup can start at one of these characters. -/
def isOpener (character : Char) : Bool :=
  "*@[(（#".toList.contains character

/-- These characters continue a word. -/
def continuesWord (character : Char) : Bool :=
  !character.isDigit && !isOpener character && !Text.isChatSpace character

/-- A lone space stands right before a character that is not space. -/
def isLoneSpace (character : Char) (rest : List Char) : Bool :=
  Text.isChatSpace character &&
    match rest with
    | [] => false
    | next :: _ => !Text.isChatSpace next

/-- A word step takes its first character, the rest of the word and the space after it. -/
def wordStep (character : Char) (rest : List Char) : List Char × List Char :=
  let later := rest.dropWhile continuesWord
  (character :: rest.takeWhile continuesWord ++ later.takeWhile Text.isChatSpace,
    later.dropWhile Text.isChatSpace)

/-- A step is a run of digits, a lone space or a word. -/
def plain : List Char → Option (List Char × List Char)
  | [] => none
  | character :: rest =>
      some <|
        if character.isDigit then
          (character :: rest.takeWhile Char.isDigit, rest.dropWhile Char.isDigit)
        else if isLoneSpace character rest then ([character], rest)
        else wordStep character rest

end DiceChat.Markup
