/-!
This file holds the two sets of blank characters: the Unicode property White_Space, and the set
that chat input treats as space.
-/

namespace DiceChat.Text

/-- This is the Unicode property White_Space. -/
def isWhiteSpace (character : Char) : Bool :=
  let code := character.toNat
  (0x09 ≤ code && code ≤ 0x0D) || code = 0x20 || code = 0x85 || code = 0xA0 ||
    code = 0x1680 || (0x2000 ≤ code && code ≤ 0x200A) || code = 0x2028 || code = 0x2029 ||
    code = 0x202F || code = 0x205F || code = 0x3000

/-- Chat input counts the byte order mark as space and the next-line control as text. -/
def isChatSpace (character : Char) : Bool :=
  (isWhiteSpace character && character != '\u0085') || character == '\uFEFF'

/-- Trimming removes the longest run of White_Space at the end. -/
def trimRight (text : List Char) : List Char :=
  (text.reverse.dropWhile isWhiteSpace).reverse

end DiceChat.Text
