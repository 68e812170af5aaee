import DiceChat.Dice.Evaluation
import DiceChat.Dice.Formula
import DiceChat.Dice.Generator
import DiceChat.Dice.Grammar
import DiceChat.Dice.Operator
import DiceChat.Dice.Outcome
import DiceChat.Dice.Render
import DiceChat.Dice.TokenRun
import DiceChat.Entity.Basic
import DiceChat.Entity.Coverage
import DiceChat.Entity.Cursor
import DiceChat.Entity.Merge
import DiceChat.Markup.Link
import DiceChat.Markup.Plain
import DiceChat.Markup.Strong
import DiceChat.Markup.Url
import DiceChat.Message.Basic
import DiceChat.Message.Env
import DiceChat.Message.Export
import DiceChat.Message.Parse
import DiceChat.Message.Piece
import DiceChat.Message.Rule
import DiceChat.Scan.Cursor
import DiceChat.Scan.Expression
import DiceChat.Scan.Message
import DiceChat.Scan.Owned
import DiceChat.Scan.Parser
import DiceChat.Scan.Pattern
import DiceChat.Scan.Run
import DiceChat.Scan.Step
import DiceChat.Text.Conversion
import DiceChat.Text.Decimal
import DiceChat.Text.Lead
import DiceChat.Text.Measure
import DiceChat.Text.Space
import DiceChat.Text.Units
import DiceChat.Wire.Dice
import DiceChat.Wire.Json
import DiceChat.Wire.Message
import DiceChat.Wire.Variant
import DiceChat.Proofs.Dice.Tokens
import DiceChat.Proofs.Entity.Tiling
import DiceChat.Proofs.Markup.Address
import DiceChat.Proofs.Markup.Delimited
import DiceChat.Proofs.Message.Reading
import DiceChat.Proofs.Message.Coverage
import DiceChat.Proofs.Markup.PlainStep
import DiceChat.Proofs.Dice.Diceless
import DiceChat.Proofs.Message.Triggers
import DiceChat.Proofs.Message.Gating
import DiceChat.Proofs.Dice.EvaluationDepth
import DiceChat.Proofs.Dice.Height
import DiceChat.Proofs.Message.Evaluable
import DiceChat.Proofs.Dice.OrderedChoice
import DiceChat.Proofs.Dice.Refinement
import DiceChat.Proofs.Scan.Sharing
import DiceChat.Proofs.Scan.History
import DiceChat.Proofs.Scan.Threading
import DiceChat.Proofs.Dice.Overrun
import DiceChat.Proofs.Dice.Reach
import DiceChat.Proofs.Message.TooDeep
import DiceChat.Proofs.Dice.Arithmetic
import DiceChat.Proofs.Dice.Evaluates
import DiceChat.Proofs.Dice.Faults
import DiceChat.Proofs.Dice.DrawOrder
import DiceChat.Proofs.Dice.Period
import DiceChat.Proofs.Dice.Fairness
import DiceChat.Proofs.Dice.Sources
import DiceChat.Proofs.Dice.Iterative
import DiceChat.Proofs.Entity.Walk
import DiceChat.Proofs.Entity.Violations
import DiceChat.Proofs.Entity.Slicing
import DiceChat.Proofs.Entity.NormalForm
import DiceChat.Proofs.Message.Exporting
import DiceChat.Proofs.Dice.Rendered
import DiceChat.Proofs.Dice.Unambiguous
import DiceChat.Proofs.Message.RoundTrip
import DiceChat.Proofs.Dice.Completeness
import DiceChat.Proofs.Message.Pieces
import DiceChat.Proofs.Message.Standalone
import DiceChat.Proofs.Message.Lossless
import DiceChat.Proofs.Message.Settings
import DiceChat.Proofs.Wire.Records
import DiceChat.Proofs.Wire.Decoding
import DiceChat.Proofs.Message.Visiting
import DiceChat.Proofs.Text.Conversion
import DiceChat.Proofs.Message.Leaves
import DiceChat.Proofs.Scan.Recognising
import DiceChat.Proofs.Scan.Expressions
import DiceChat.Proofs.Scan.Messages
