/-!
# Letter case

Names are compared without regard to the case of the ASCII letters; all other characters stand for
themselves. `fold` maps a text to the representative of its class, so two texts are the same name
exactly if their folds are equal. The bytes of a text are folded one by one.
-/

namespace DevConsole.Text

/-- The characters with the ASCII capitals made small. -/
def foldChars (cs : List Char) : List Char := cs.map Char.toLower

/-- A text with the ASCII capitals made small. -/
def fold (s : String) : String := String.ofList (foldChars s.toList)

/-- The bytes of the UTF-8 form. -/
def bytes (s : String) : List UInt8 := s.toList.flatMap String.utf8EncodeChar

/-- A byte, or the small letter if it is an ASCII capital. -/
def foldByte (b : UInt8) : UInt8 := if 65 ≤ b && b ≤ 90 then b + 32 else b

/-- The bytes of the UTF-8 form with the ASCII capitals made small. -/
def foldBytes (s : String) : List UInt8 := (bytes s).map foldByte

/-- The texts are equal but for the case of ASCII letters. -/
def sameName (a b : String) : Bool := foldChars a.toList == foldChars b.toList

/-- The first text begins the second, but for the case of ASCII letters. -/
def startsName (lead name : String) : Bool :=
  (foldChars lead.toList).isPrefixOf (foldChars name.toList)

theorem sameName_iff (a b : String) :
    sameName a b = true ↔ foldChars a.toList = foldChars b.toList := by
  simp [sameName]

theorem sameName_eq_false_iff (a b : String) :
    sameName a b = false ↔ foldChars a.toList ≠ foldChars b.toList := by
  simp [sameName]

theorem sameName_comm (a b : String) : sameName a b = sameName b a := by
  rw [Bool.eq_iff_iff, sameName_iff, sameName_iff, eq_comm]

theorem sameName_trans {a b c : String} (hab : sameName a b = true) (hbc : sameName b c = true) :
    sameName a c = true := by
  rw [sameName_iff] at *
  exact hab.trans hbc

@[simp] theorem sameName_self (a : String) : sameName a a = true := by simp [sameName]

end DevConsole.Text
