import DiceChat.Message.Env
import DiceChat.Scan.Pattern
import DiceChat.Text.Space

/-!
This file holds parsers as data. A parser reads source from the front of what is left, may append
to the text of the scan, and fails without a trace in the cursor it was given.
-/

namespace DiceChat.Scan

/-- A callback sees the text before the match and the source after it. -/
structure View where
  text : List Char
  offset : Nat
  rest : List Char
  depth : Nat
  deriving DecidableEq, Repr

/-- A callback appends text or drops characters of the source. -/
inductive Edit where
  | append (text : List Char)
  | drop (count : Nat)
  deriving DecidableEq, Repr

/-- A callback lists its edits and returns a value or rejects the match. -/
abbrev Callback (First Second : Type) := Env → View → First → List Edit × Option Second

/-- A parser is built from tokens by sequence, choice, repetition, nesting and callbacks. -/
inductive Parser : Type → Type 1 where
  /-- A token gives a value and the number of characters it takes. -/
  | token {Value : Type} (recognise : List Char → Option (Value × Nat)) : Parser Value
  | map {First Second : Type} (change : First → Second) (parser : Parser First) : Parser Second
  | and {First Second : Type} (first : Parser First) (second : Parser Second) :
      Parser (First × Second)
  | maybe {Value : Type} (parser : Parser Value) : Parser (Option Value)
  | many {Value : Type} (parser : Parser Value) : Parser (List Value)
  | never {Value : Type} : Parser Value
  | either {Value : Type} (first second : Parser Value) : Parser Value
  | nested {Value : Type} (parser : Parser Value) : Parser Value
  | andThen {First Second : Type} (parser : Parser First) (callback : Callback First Second) :
      Parser Second

namespace Parser

/-- Nesting stops at this depth. -/
def maxDepth : Nat := 64

/-- Both parsers run, and the value of the first one is kept. -/
def keepLeft {First Second : Type} (first : Parser First) (second : Parser Second) : Parser First :=
  (first.and second).map Prod.fst

/-- Both parsers run, and the value of the second one is kept. -/
def keepRight {First Second : Type} (first : Parser First) (second : Parser Second) :
    Parser Second :=
  (first.and second).map Prod.snd

/-- The first alternative that succeeds wins. -/
def choice {Value : Type} (parsers : List (Parser Value)) : Parser Value :=
  parsers.foldr either never

def pattern (pattern : Pattern) : Parser Match := token pattern.find

/-- This takes any amount of space. -/
def space : Parser Unit :=
  token fun input => some ((), (input.takeWhile Text.isChatSpace).length)

/-- A parser that contains itself under a nesting runs no deeper than the nesting allows, so that
many copies of it are enough. -/
def recursive {Value : Type} (body : Parser Value → Parser Value) : Parser Value :=
  unfold (maxDepth + 1)
where
  unfold : Nat → Parser Value
    | 0 => never
    | count + 1 => body (unfold count)

/-- A parser is shown as a function. -/
def describe {Value : Type} (_ : Parser Value) : String :=
  "Parser \x7b step: \"<function>\" \x7d"

end Parser

end DiceChat.Scan
