import DiceChat.Dice.TokenRun
import DiceChat.Markup.Link
import DiceChat.Markup.Plain
import DiceChat.Markup.Strong
import DiceChat.Markup.Url
import DiceChat.Message.Env
import DiceChat.Message.Piece

/-!
This file holds the rules that cut a source into pieces, and selects the rules that a source can
need from the characters it holds.
-/

namespace DiceChat

/-- Each rule recognises one kind of piece. -/
inductive Rule where
  | strong
  | link
  | autoUrl
  | expression
  | span
  deriving DecidableEq, Repr

namespace Rule

/-- A report shows a rule under this name. -/
def name : Rule → String
  | .strong => "strong"
  | .link => "link"
  | .autoUrl => "auto_url"
  | .expression => "expression"
  | .span => "span"

/-- This lists the rules from the one tried first to the one tried last. -/
def all : List Rule := [.strong, .link, .autoUrl, .expression, .span]

/-- A too deep expression is kept as text up to the end of its tokens. A bare number is not an
expression. -/
def readExpression (input : List Char) : Option (Piece × List Char) :=
  match Grammar.expr maxExprDepth input with
  | .tooDeep =>
      let run := Grammar.tokenRun input
      if run = [] then none else some (.plain run, Grammar.afterTokens input)
  | .failed => none
  | .read written rest =>
      if written.isNum then none
      else
        let source := Text.before input rest
        some (⟨source, source, .expr written⟩, rest)

/-- This applies a rule to the front of the remaining source. -/
def read (rule : Rule) (input : List Char) : Option (Piece × List Char) :=
  match rule with
  | .strong =>
      (Markup.strong input).map fun (content, rest) =>
        (⟨Text.before input rest, content, .strong⟩, rest)
  | .link =>
      (Markup.link input).map fun (found, rest) =>
        (⟨Text.before input rest, found.title, .link found.href⟩, rest)
  | .autoUrl =>
      (Markup.url input).map fun (address, rest) => (⟨address, address, .link address⟩, rest)
  | .expression => readExpression input
  | .span => (Markup.plain input).map fun (step, rest) => (.plain step, rest)

/-- A rule can match only in a source that holds its characteristic characters. -/
def triggeredBy (source : List Char) : Rule → Bool
  | .strong => Text.contains ['*', '*'] source
  | .link => source.contains '[' && Text.contains [']', '('] source
  | .autoUrl =>
      Text.contains ['h', 't', 't', 'p', ':', '/', '/'] source ||
        Text.contains ['h', 't', 't', 'p', 's', ':', '/', '/'] source
  | .expression => source.any Char.isDigit || source.contains 'd'
  | .span => true

/-- Expressions can be switched off. -/
def enabledIn (env : Env) : Rule → Bool
  | .expression => env.parseExpr
  | _ => true

/-- These rules are tried on a source, in their order. -/
def active (env : Env) (source : List Char) : List Rule :=
  all.filter fun rule => rule.enabledIn env && rule.triggeredBy source

end Rule

end DiceChat
