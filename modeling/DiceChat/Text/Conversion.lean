import Mathlib.Algebra.Group.Nat.Defs
import DiceChat.Text.Decimal

/-!
This file converts decimal texts to integers of a fixed width. A conversion rejects a text without
digits, a text with another character, and a value outside the width.
-/

namespace DiceChat.Text

/-- One more digit is read if the value stays within the largest one. -/
def pushDigit (most value : Nat) (character : Char) : Option Nat :=
  if character.isDigit then
    let pushed := 10 * value + (character.toNat - '0'.toNat)
    if pushed ≤ most then some pushed else none
  else none

/-- This converts a run of digits up to a largest value. -/
def convertDigits (most : Nat) (digits : List Char) : Option Nat :=
  if digits.isEmpty then none else digits.foldlM (pushDigit most) 0

/-- This converts a text with 32 bits for the value, and a plus sign may stand before the digits. -/
def convertUInt32 : List Char → Option UInt32
  | '+' :: digits => (convertDigits (2 ^ 32 - 1) digits).map UInt32.ofNat
  | digits => (convertDigits (2 ^ 32 - 1) digits).map UInt32.ofNat

/-- This converts a text with 64 bits for the value and its sign. There is one more negative value
than there are positive ones. -/
def convertInt64 : List Char → Option Int64
  | '+' :: digits => (convertDigits (2 ^ 63 - 1) digits).map Int64.ofNat
  | '-' :: digits => (convertDigits (2 ^ 63) digits).map fun value => Int64.ofInt (-value)
  | digits => (convertDigits (2 ^ 63 - 1) digits).map Int64.ofNat

/-- A part that was left out has the default, and digits are converted. -/
def convertOr {Value : Type} (default : Value) (convert : List Char → Option Value)
    (digits : List Char) : Option Value :=
  if digits.isEmpty then some default else convert digits

end DiceChat.Text
