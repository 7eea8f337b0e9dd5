import DevConsole.Text.Unassigned

/-!
# Unprintable characters

A character is printable if Unicode 17.0 counts it among the letters, marks, numbers, punctuation
or symbols, or if it is the space. What is left are the general categories `C` (controls, formats,
private use, unassigned) and `Z` (separators). Four letters only fill the place of another and are
unprintable too.
-/

namespace DevConsole.Text

/-- The control characters (`Cc`). -/
def controls : List (Nat × Nat) :=
  [(0x00, 0x1F), (0x7F, 0x9F)]

/-- The characters that only steer the layout of others (`Cf`). -/
def formats : List (Nat × Nat) :=
  [(0xAD, 0xAD), (0x600, 0x605), (0x61C, 0x61C), (0x6DD, 0x6DD), (0x70F, 0x70F), (0x890, 0x891),
   (0x8E2, 0x8E2), (0x180E, 0x180E), (0x200B, 0x200F), (0x202A, 0x202E), (0x2060, 0x2064),
   (0x2066, 0x206F), (0xFEFF, 0xFEFF), (0xFFF9, 0xFFFB), (0x110BD, 0x110BD), (0x110CD, 0x110CD),
   (0x13430, 0x1343F), (0x1BCA0, 0x1BCA3), (0x1D173, 0x1D17A), (0xE0001, 0xE0001),
   (0xE0020, 0xE007F)]

/-- The characters whose meaning is a private agreement (`Co`). -/
def privateUse : List (Nat × Nat) :=
  [(0xE000, 0xF8FF), (0xF0000, 0xFFFFD), (0x100000, 0x10FFFD)]

/-- The separators of words, lines and paragraphs (`Zs`, `Zl`, `Zp`), the space U+0020 excepted. -/
def separators : List (Nat × Nat) :=
  [(0xA0, 0xA0), (0x1680, 0x1680), (0x2000, 0x200A), (0x2028, 0x2029), (0x202F, 0x202F),
   (0x205F, 0x205F), (0x3000, 0x3000)]

/-- The letters that are shown as nothing (property `Default_Ignorable_Code_Point`): they stand for
a part of a Hangul syllable that it does not have. -/
def fillers : List (Nat × Nat) :=
  [(0x115F, 0x1160), (0x3164, 0x3164), (0xFFA0, 0xFFA0)]

/-- The character has no shape of its own. -/
def isUnprintable (c : Char) : Bool :=
  let n := c.toNat
  covers controls n || covers separators n || covers formats n || covers privateUse n ||
    covers fillers n || covers unassigned n

end DevConsole.Text
