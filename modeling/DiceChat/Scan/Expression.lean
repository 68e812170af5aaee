import DiceChat.Dice.Grammar
import DiceChat.Scan.Step
import DiceChat.Text.Conversion

/-!
This file reads dice expressions from cursors. The tokens are parsers, and chains and brackets are
steps around them. A chain charges one level for each operand after its first one and a bracket one
level for its content, and running out of levels leaves a mark on the output. The mark stays even if
the alternative that ran out of levels is abandoned.
-/

namespace DiceChat.Scan

/-- This takes one of some characters. -/
def Pattern.oneOf (characters : List Char) : Pattern :=
  ⟨[{ accepts := characters.contains }], false⟩

/-- A counter, the letter and a face make a roll. -/
def Pattern.roll : Pattern :=
  ⟨[⟨Char.isDigit, 0, some 3, true⟩, { accepts := fun character => character == 'd' },
    ⟨Char.isDigit, 0, some 4, true⟩], false⟩

def Pattern.num : Pattern := ⟨[⟨Char.isDigit, 1, some 5, false⟩], false⟩

/-- A roll is rejected if its letter starts a word. A face that was left out is the default one. -/
def rollOf? (env : Env) (rest : List Char) (found : Match) : Option Expr :=
  if Grammar.startsWord (found.group 2) rest then none
  else
    (Text.convertOr 1 Text.convertUInt32 (found.group 1)).bind fun counter =>
      (Text.convertOr env.defaultFace Text.convertUInt32 (found.group 2)).map fun face =>
        .roll counter face

namespace Parser

def roll : Parser Expr :=
  (pattern .roll).andThen fun env view found => ([], rollOf? env view.rest found)

def num : Parser Expr :=
  (pattern .num).andThen fun _ _ found => ([], (Text.convertInt64 found.whole).map .num)

/-- This takes one of some symbols as an operator. -/
def symbol (symbols : List Char) : Parser Operator :=
  (pattern (.oneOf symbols)).andThen fun _ _ found => ([], Operator.ofText? found.whole)

/-- An operator has space around it. -/
def operator (symbols : List Char) : Parser Operator :=
  space.keepRight ((symbol symbols).keepLeft space)

/-- This opens a bracket, with space behind it. -/
def opening (bracket : Char) : Parser Unit := (pattern (.oneOf [bracket])).keepRight space

/-- This closes a bracket, with space before it. -/
def closing (bracket : Char) : Parser Match := space.keepRight (pattern (.oneOf [bracket]))

end Parser

/-- The last two operands are joined first. -/
def foldRight (first : Expr) (rest : List (Operator × Expr)) : Expr :=
  match rest.reverse with
  | [] => first
  | last :: earlier =>
      let folded := earlier.foldl
        (fun (operator, node) (previous, left) => (previous, .binary operator left node)) last
      .binary folded.1 first folded.2

/-- This reads operators with operands after them until one of the two is missing. The next operand
is one level deeper than the last one, and the cursor comes back to the depth of the chain. -/
def linkSteps (operator : Step Operator) (operand : Step Expr) (home depth : Nat) :
    Step (List (Operator × Expr)) := fun cursor output =>
  match operator cursor output with
  | none => none
  | some (none, written) => some (some ([], cursor), written)
  | some (some (symbol, after), written) =>
      if Parser.maxDepth ≤ depth + 1 then some (none, written.markTooDeep)
      else
        match operand (after.atDepth (depth + 1)) written with
        | none => none
        | some (none, final) => some (some ([], cursor), final)
        | some (some (value, next), middle) =>
            (linkSteps operator operand home (depth + 1) (next.atDepth home) middle).map
              fun (result, final) =>
                (result.map fun (others, last) => ((symbol, value) :: others, last), final)
termination_by Parser.maxDepth - depth

/-- A chain is an operand and any number of operators with operands after it. -/
def chainStep (operator : Step Operator) (operand : Step Expr) : Step Expr := fun cursor output =>
  (operand.bind fun first =>
    (linkSteps operator operand cursor.depth cursor.depth).bind fun rest =>
      .succeed (foldRight first rest)) cursor output

section

variable (env : Env)

/-- A bracket is one level deeper than what is around it. -/
def groupStep (bracket : Char × Char) (content : Step Expr) : Step Expr :=
  Step.nested <|
    ((Parser.opening bracket.1).run env).bind fun _ =>
      content.bind fun value =>
        ((Parser.closing bracket.2).run env).bind fun _ => .succeed value

/-- This is a bracket around a parser. -/
def Parser.group (bracket : Char × Char) (content : Parser Expr) : Parser Expr :=
  nested (((((pattern (.oneOf [bracket.1])).keepRight space).keepRight content).keepLeft
    space).keepLeft (pattern (.oneOf [bracket.2])))

/-- A bracket around a parser runs as the bracket around its step. -/
theorem run_group (bracket : Char × Char) (content : Parser Expr) :
    (Parser.group bracket content).run env = groupStep env bracket (content.run env) := by
  change Step.nested _ = Step.nested _
  simp only [Parser.run_keepLeft, Parser.run_keepRight, Parser.opening, Parser.closing,
    Step.bind_assoc, Step.succeed_bind]

/-- An atom is a roll, a number or a bracketed expression. -/
def atomStep (content : Step Expr) : Step Expr :=
  .choice [Parser.roll.run env, Parser.num.run env, groupStep env ('(', ')') content,
    groupStep env ('（', '）') content, groupStep env ('[', ']') content]

/-- With a parser for the content, the alternatives of an atom are a choice of parsers. -/
theorem run_atom (content : Parser Expr) :
    (Parser.choice [.roll, .num, .group ('(', ')') content, .group ('（', '）') content,
      .group ('[', ']') content]).run env = atomStep env (content.run env) := by
  rw [Parser.run_choice, atomStep]
  simp only [List.map_cons, List.map_nil, run_group]

/-- This reads sums of products of atoms. -/
def sumStep (content : Step Expr) : Step Expr :=
  chainStep ((Parser.operator ['-', '+']).run env)
    (chainStep ((Parser.operator ['*', '/', '×', '÷']).run env) (atomStep env content))

/-- This reads an expression whose brackets nest at most so deep. -/
def exprSteps : Nat → Step Expr
  | 0 => .fail
  | count + 1 => sumStep env (exprSteps count)

/-- The last bracket is refused before its content would be read. -/
def exprStep : Step Expr := exprSteps env (Parser.maxDepth + 1)

end

end DiceChat.Scan
