import DevConsole.Text.Unprintable
import DevConsole.Text.Extending

/-!
# Escaped texts

A text between quotes, in which every character can be seen: quotes, backslashes and the common
controls are written with a backslash and a letter, and what has no shape of its own by its code
point, `\u{a0}`. Other characters stand for themselves.
-/

namespace DevConsole.Text

/-- The character cannot be seen by itself. -/
def isHidden (c : Char) : Bool := isExtending c || isUnprintable c

/-- The digit for a number below sixteen. -/
def hexDigit (n : Nat) : Char := if n < 10 then Char.ofNat (0x30 + n) else Char.ofNat (0x57 + n)

/-- The digits of a number in base 16, without leading zeros. -/
def hexChars (n : Nat) : List Char :=
  if n < 16 then [hexDigit n] else hexChars (n / 16) ++ [hexDigit (n % 16)]

/-- A character as it is written in an escaped text. -/
def escapedChar (c : Char) : List Char :=
  if c = '"' then ['\\', '"']
  else if c = '\\' then ['\\', '\\']
  else if c = '\n' then ['\\', 'n']
  else if c = '\t' then ['\\', 't']
  else if c = '\r' then ['\\', 'r']
  else if c.val = 0 then ['\\', '0']
  else if isHidden c then '\\' :: 'u' :: '\x7b' :: (hexChars c.toNat ++ ['\x7d'])
  else [c]

/-- A text between quotes, with escapes for what would not show. -/
def escaped (s : String) : String :=
  String.ofList ('"' :: s.toList.flatMap escapedChar ++ ['"'])

end DevConsole.Text
