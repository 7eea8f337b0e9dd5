import DevConsole.Text.Join

/-!
# The line being edited

The text holds printable ASCII only, so that a position counts characters and bytes alike; other
characters are refused. What is typed goes in at the cursor, in overwrite mode in the place of the
character under it.
-/

namespace DevConsole

/-- A character that the line can hold: printable ASCII. -/
def isLineChar (c : Char) : Bool := ' ' ≤ c && c ≤ '~'

/-- The line being edited. -/
structure LineBuffer where
  chars : List Char := []
  /-- The number of characters before the cursor. -/
  cursor : Nat := 0
  overwrite : Bool := false
  deriving DecidableEq, Repr, Inhabited

namespace LineBuffer

/-- The empty line. -/
def empty : LineBuffer := {}

/-- The text of the line. -/
def text (b : LineBuffer) : String := String.ofList b.chars

/-- The length of the line. -/
def size (b : LineBuffer) : Nat := b.chars.length

/-- The line is empty. -/
def isEmpty (b : LineBuffer) : Bool := b.chars.isEmpty

/-- The number of characters after the cursor. -/
def cursorFromEnd (b : LineBuffer) : Nat := b.size - b.cursor

/-- Puts the cursor before the last `n` characters, or at the start if there are fewer. -/
def setCursorFromEnd (b : LineBuffer) (n : Nat) : LineBuffer :=
  { b with cursor := b.size - min n b.size }

/-- Chooses between overwriting and inserting. -/
def setOverwrite (b : LineBuffer) (on : Bool) : LineBuffer := { b with overwrite := on }

/-- Types a character, unless the line cannot hold it. -/
def insert (b : LineBuffer) (c : Char) : LineBuffer :=
  if isLineChar c then
    { b with
      chars :=
        if b.overwrite && b.cursor < b.size then b.chars.set b.cursor c
        else b.chars.insertIdx b.cursor c
      cursor := b.cursor + 1 }
  else b

/-- Types the characters of a text one by one. -/
def insertText (b : LineBuffer) (s : String) : LineBuffer := s.toList.foldl insert b

/-- The number of characters of a text that the line can hold. -/
def accepted (s : String) : Nat := s.toList.countP isLineChar

/-- Adds the characters that the line can hold at its end; the cursor stays. -/
def append (b : LineBuffer) (s : String) : LineBuffer :=
  { b with chars := b.chars ++ s.toList.filter isLineChar }

/-- Drops the character before the cursor, if there is one. -/
def backspace? (b : LineBuffer) : Option LineBuffer :=
  if b.cursor = 0 then none
  else some { b with chars := b.chars.eraseIdx (b.cursor - 1), cursor := b.cursor - 1 }

/-- Drops the character after the cursor, if there is one. -/
def delete? (b : LineBuffer) : Option LineBuffer :=
  if b.size ≤ b.cursor then none else some { b with chars := b.chars.eraseIdx b.cursor }

/-- Moves the cursor one to the left. -/
def moveLeft (b : LineBuffer) : LineBuffer := { b with cursor := b.cursor - 1 }

/-- Moves the cursor one to the right. -/
def moveRight (b : LineBuffer) : LineBuffer := { b with cursor := min (b.cursor + 1) b.size }

/-- Moves the cursor to the start. -/
def moveHome (b : LineBuffer) : LineBuffer := { b with cursor := 0 }

/-- Moves the cursor to the end. -/
def moveEnd (b : LineBuffer) : LineBuffer := { b with cursor := b.size }

/-- Drops the text. -/
def reset (b : LineBuffer) : LineBuffer := { b with chars := [], cursor := 0 }

/-- Puts the characters of a text that the line can hold in the place of the old text, with the
cursor at the end. -/
def set (b : LineBuffer) (s : String) : LineBuffer := (b.reset.append s).moveEnd

end LineBuffer

end DevConsole
