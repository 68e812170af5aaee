import DiceChat.Text.Lead

/-!
This file recognises web addresses in plain text. The host, the top-level part and the tail share
characters, so the reader tries the longest host first and then shorter ones.
-/

namespace DiceChat.Markup

/-- These characters may stand in the host. -/
def isHostCharacter (character : Char) : Bool :=
  character.isAlphanum || "-@:%._+~#=".toList.contains character

/-- These characters may stand in the top-level part. -/
def isTopCharacter (character : Char) : Bool :=
  character.isAlphanum || "()".toList.contains character

/-- These characters may stand in the tail of an address. -/
def isTailCharacter (character : Char) : Bool :=
  character.isAlphanum || "-()@:%_+.~#?&/=".toList.contains character

/-- A word is made of ASCII letters, digits and underscores. -/
def isWordCharacter (character : Char) : Bool :=
  character.isAlphanum || character == '_'

/-- A word starts or ends between the last character and the rest. -/
def isWordBoundary (last : Char) (rest : List Char) : Bool :=
  isWordCharacter last != (rest.head?.map isWordCharacter).getD false

/-- This takes as many characters of a class as it can, and fewer if the reader after it fails.
The reader after it sees the last character taken. -/
def greedy (accepts : Char → Bool) (next : Char → List Char → Option (List Char)) :
    Nat → Char → List Char → Option (List Char)
  | 0, last, input => next last input
  | _ + 1, last, [] => next last []
  | limit + 1, last, character :: rest =>
      if accepts character then
        (greedy accepts next limit character rest).or (next last (character :: rest))
      else next last (character :: rest)

/-- This takes at least one character of a class and at most `limit + 1`. -/
def greedyFromOne (accepts : Char → Bool) (next : Char → List Char → Option (List Char))
    (limit : Nat) : List Char → Option (List Char)
  | [] => none
  | character :: rest =>
      if accepts character then greedy accepts next limit character rest else none

/-- The top-level part ends at a word boundary, and the longest tail follows it. -/
def urlTail (last : Char) (input : List Char) : Option (List Char) :=
  if isWordBoundary last input then some (input.dropWhile isTailCharacter) else none

/-- A dot separates the host from a top-level part of one to six characters. -/
def urlTop (_ : Char) : List Char → Option (List Char)
  | '.' :: rest => greedyFromOne isTopCharacter urlTail 5 rest
  | _ => none

/-- The host has one to 256 characters. -/
def urlHost (input : List Char) : Option (List Char) :=
  greedyFromOne isHostCharacter urlTop 255 input

/-- An address starts with one of two schemes. -/
def afterScheme (input : List Char) : Option (List Char) :=
  (Text.expect ['h', 't', 't', 'p', 's', ':', '/', '/'] input).or
    (Text.expect ['h', 't', 't', 'p', ':', '/', '/'] input)

/-- A leading `www.` is taken off before the host if the host can do without it. -/
def urlRest (input : List Char) : Option (List Char) :=
  ((Text.expect ['w', 'w', 'w', '.'] input).bind urlHost).or (urlHost input)

/-- This splits an address off the front of a text. -/
def url (input : List Char) : Option (List Char × List Char) :=
  ((afterScheme input).bind urlRest).map fun rest => (Text.before input rest, rest)

end DiceChat.Markup
