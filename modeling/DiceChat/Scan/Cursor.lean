import DiceChat.Text.Units

/-!
This file holds the cursors of a scan. All cursors of a run share one output text, and a cursor
knows only how many bytes at its front are its own. Appending from a cursor cuts the shared text
back to its own part first, which drops what an abandoned cursor wrote after it.
-/

namespace DiceChat.Scan

/-- The output is shared by all cursors of a run, and so is the mark of a scan that went too
deep. -/
structure Output where
  text : List Char := []
  tooDeep : Bool := false
  deriving DecidableEq, Repr

/-- A cursor owns the first `textBytes` bytes of the output, which are `offset` code units, and
has the rest of the source before it. -/
structure Cursor where
  textBytes : Nat
  offset : Nat
  rest : List Char
  depth : Nat
  deriving DecidableEq, Repr

namespace Output

def markTooDeep (output : Output) : Output := { output with tooDeep := true }

/-- Reading the mark clears it. -/
def takeTooDeep (output : Output) : Bool × Output :=
  (output.tooDeep, { output with tooDeep := false })

/-- A shorter text stays as it is, and a longer one must have a character boundary there. -/
def truncate (count : Nat) (output : Output) : Option (List Char) :=
  if Text.bytes output.text ≤ count then some output.text
  else (Text.cutBytes output.text count).map Prod.fst

end Output

namespace Cursor

/-- A run starts with nothing read and nothing written. -/
def ofSource (source : List Char) : Cursor := ⟨0, 0, source, 0⟩

/-- This reads the part of the output that belongs to a cursor. It fails if the output is shorter
or has no character boundary there. -/
def text? (cursor : Cursor) (output : Output) : Option (List Char) :=
  (Text.cutBytes output.text cursor.textBytes).map Prod.fst

/-- The new cursor owns everything up to the end of the appended text. -/
def append (added : List Char) (cursor : Cursor) (output : Output) : Option (Cursor × Output) :=
  (output.truncate cursor.textBytes).map fun kept =>
    ({ cursor with
        textBytes := Text.bytes (kept ++ added), offset := cursor.offset + Text.units added },
      { output with text := kept ++ added })

/-- This drops bytes of the source, and fails past its end or inside a character. -/
def advance (count : Nat) (cursor : Cursor) : Option Cursor :=
  (Text.cutBytes cursor.rest count).map fun parts => { cursor with rest := parts.2 }

def atDepth (depth : Nat) (cursor : Cursor) : Cursor := { cursor with depth }

/-- This is the source between an earlier cursor and a later one. -/
def consumedSince (earlier cursor : Cursor) : Option (List Char) :=
  (Text.cutBytes earlier.rest (Text.bytes earlier.rest - Text.bytes cursor.rest)).map Prod.fst

end Cursor

end DiceChat.Scan
