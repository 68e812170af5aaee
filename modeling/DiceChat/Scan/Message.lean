import DiceChat.Entity.Merge
import DiceChat.Message.Basic
import DiceChat.Message.Rule
import DiceChat.Scan.Expression

/-!
This file reads messages from cursors. Every rule is a step that appends the text of its entity, and
the loop over the rules repeats the first of them that succeeds until the source ends.
-/

namespace DiceChat.Scan

/-- This takes what a reader takes off the front of the source. -/
def Parser.ofReader {Value : Type} (reader : List Char → Option (Value × List Char)) :
    Parser Value :=
  token fun input => (reader input).map fun (value, rest) => (value, input.length - rest.length)

/-- The text of a match is appended and covered by an entity. -/
def Parser.entity {Value : Type} (text : Value → List Char) (body : Value → EntityBody)
    (parser : Parser Value) : Parser Entity :=
  parser.andThen fun _ view value =>
    ([.append (text value)],
      some ⟨UInt64.ofNat view.offset, UInt64.ofNat (Text.units (text value)), body value⟩)

namespace Parser

def strong : Parser Entity := (ofReader Markup.strong).entity id fun _ => .strong

def link : Parser Entity :=
  (ofReader Markup.link).entity Markup.Link.title fun found => .link (String.ofList found.href)

/-- An address is linked to itself. -/
def autoUrl : Parser Entity :=
  (ofReader Markup.url).entity id fun address => .link (String.ofList address)

def digits : Parser (List Char) :=
  (pattern ⟨[⟨Char.isDigit, 1, none, false⟩], false⟩).map Match.whole

/-- Only the space itself is taken, so that what follows can be tried with every rule. -/
def loneSpace : Parser (List Char) :=
  token fun input =>
    match input with
    | [] => none
    | character :: rest => if Markup.isLoneSpace character rest then some ([character], 1) else none

/-- Any character starts a word. -/
def wordRun : Parser (List Char) :=
  (pattern ⟨[{ accepts := fun _ => true }, ⟨Markup.continuesWord, 0, none, false⟩,
    ⟨Text.isChatSpace, 0, none, false⟩], false⟩).map Match.whole

def span : Parser Entity := (choice [digits, loneSpace, wordRun]).entity id fun _ => .text

end Parser

/-- The mark is cleared before an expression is read and after it. If the expression was too deep,
its whole run of tokens is text. -/
def expressionStep (env : Env) : Step Entity := fun cursor output =>
  (exprStep env cursor output.takeTooDeep.2).bind fun (parsed, written) =>
    let kept := written.takeTooDeep.2
    if written.takeTooDeep.1 then
      let run := Grammar.tokenRun cursor.rest
      if run = [] then some (none, kept)
      else
        (cursor.advance (Text.bytes run)).bind fun next =>
          (next.append run kept).map fun (last, final) =>
            (some (⟨UInt64.ofNat cursor.offset, UInt64.ofNat (Text.units run), .text⟩, last), final)
    else
      match parsed with
      | none => some (none, kept)
      | some (node, next) =>
          if node.isNum then some (none, kept)
          else
            (cursor.consumedSince next).bind fun consumed =>
              (next.append consumed kept).map fun (last, final) =>
                (some (⟨UInt64.ofNat next.offset, UInt64.ofNat (Text.units consumed), .expr node⟩,
                  last), final)

/-- This is the step of a rule. -/
def ruleStep (env : Env) : Rule → Step Entity
  | .strong => Parser.strong.run env
  | .link => Parser.link.run env
  | .autoUrl => Parser.autoUrl.run env
  | .expression => expressionStep env
  | .span => Parser.span.run env

/-- What no rule takes is appended and covered by a text entity. -/
def keepRest (entities : List Entity) (cursor : Cursor) (output : Output) :
    Option ((List Entity × Cursor) × Output) :=
  if cursor.rest = [] then some ((entities, cursor), output)
  else
    (cursor.advance (Text.bytes cursor.rest)).bind fun next =>
      (next.append cursor.rest output).map fun (last, final) =>
        ((entities ++ [⟨UInt64.ofNat cursor.offset, UInt64.ofNat (Text.units cursor.rest), .text⟩],
          last), final)

/-- This reads a source with a list of rules, and counts its entities before text is merged. -/
def scanWith (rules : List Rule) (env : Env) (source : List Char) : Option (Message × Nat) :=
  if source = [] then some (.empty, 0)
  else
    (repeatStep (.choice (rules.map (ruleStep env))) (.ofSource source) {}).bind
      fun ((entities, cursor), written) =>
        (keepRest entities cursor written).bind fun ((entities, last), final) =>
          (last.text? final).map fun text =>
            (⟨String.ofList text, mergeText entities⟩, entities.length)

/-- This reads a source with the rules that it can need. -/
def scan (env : Env) (source : List Char) : Option (Message × Nat) :=
  scanWith (Rule.active env source) env source

end DiceChat.Scan
