/-!
# White space

The characters with the Unicode property `White_Space`, and what is cut along them: the ends of a
text (`trim`) and the words between runs of white space (`words`).

The class is wider than `Char.isWhitespace`: U+0085, U+00A0 and U+3000 are white space, while
U+200B, U+001C and U+FEFF are not.
-/

namespace DevConsole.Text

/-- The characters with the Unicode property `White_Space`. -/
def isBlank (c : Char) : Bool :=
  let n := c.val
  (0x09 ≤ n && n ≤ 0x0D) || n == 0x20 || n == 0x85 || n == 0xA0 || n == 0x1680 ||
    (0x2000 ≤ n && n ≤ 0x200A) || n == 0x2028 || n == 0x2029 || n == 0x202F || n == 0x205F ||
    n == 0x3000

/-- The characters after the leading white space. -/
def dropBlank (cs : List Char) : List Char := cs.dropWhile isBlank

/-- The characters without white space at either end. -/
def trimChars (cs : List Char) : List Char :=
  (dropBlank (dropBlank cs).reverse).reverse

/-- The characters without white space at the end. -/
def trimCharsEnd (cs : List Char) : List Char := (dropBlank cs.reverse).reverse

/-- A text without white space at either end. -/
def trim (s : String) : String := String.ofList (trimChars s.toList)

/-- A text without white space at its end. -/
def trimEnd (s : String) : String := String.ofList (trimCharsEnd s.toList)

/-- The pieces between the characters of a class, empty ones included: one more than there are
such characters. -/
def pieces (p : Char → Bool) : List Char → List (List Char)
  | [] => [[]]
  | c :: cs =>
    if p c then [] :: pieces p cs
    else
      match pieces p cs with
      | [] => [[c]]
      | w :: ws => (c :: w) :: ws

/-- The words of a text: its longest stretches without white space. -/
def words (cs : List Char) : List (List Char) :=
  (pieces isBlank cs).filter (· ≠ [])

theorem pieces_ne_nil (p : Char → Bool) (cs : List Char) : pieces p cs ≠ [] := by
  cases cs with
  | nil => simp [pieces]
  | cons c cs => unfold pieces; repeat' split <;> simp

/-- A separator splits the pieces into those of the two sides. -/
theorem pieces_append_cons {p : Char → Bool} {c : Char} (hc : p c = true) (xs ys : List Char) :
    pieces p (xs ++ c :: ys) = pieces p xs ++ pieces p ys := by
  induction xs with
  | nil => simp [pieces, hc]
  | cons x xs ih =>
    by_cases hx : p x = true
    · simp [pieces, hx, ih]
    · obtain ⟨w, ws, h⟩ := List.exists_cons_of_ne_nil (pieces_ne_nil p xs)
      simp [pieces, hx, ih, h]

end DevConsole.Text
