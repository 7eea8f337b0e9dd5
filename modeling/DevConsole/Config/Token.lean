import DevConsole.Text.Blank

/-!
# Tokens of a config text

Tokens stand between white space and comments. A token is bare, and then runs to the next white
space or double quote, or it is quoted, and then holds any characters, with a backslash before a
quote or a backslash that is meant as such. Comments run from `#` or `//` to the end of the line, or
from `/*` to `*/`; inside a bare token these characters start no comment.

The scanner takes one character at a time; what it is in the middle of is its `Scan`.
-/

namespace DevConsole.Config

/-- A token and the line on which it starts, counted from 1. -/
structure Token where
  text : String
  line : Nat
  deriving DecidableEq, Repr, Inhabited

/-- A text ends inside a token or comment that started on this line. -/
inductive TokenError
  | unterminatedString (line : Nat)
  | unterminatedComment (line : Nat)
  deriving DecidableEq, Repr, Inhabited

/-- The line on which the open token or comment starts. -/
def TokenError.line : TokenError → Nat
  | .unterminatedString line => line
  | .unterminatedComment line => line

/-- The wording without the line. -/
def TokenError.message : TokenError → String
  | .unterminatedString _ => "unterminated string"
  | .unterminatedComment _ => "unterminated block comment"

/-- What the scanner is in the middle of. Texts of tokens are held last character first. -/
inductive Scan
  /-- Between tokens. -/
  | gap
  /-- In a comment that ends with the line. -/
  | lineComment
  /-- Before the star that opens a comment. -/
  | opening (start : Nat)
  /-- In a comment; `star` says that the last character may begin its end. -/
  | comment (start : Nat) (star : Bool)
  /-- In a quoted token. -/
  | quoted (start : Nat) (text : List Char)
  /-- In a quoted token after a backslash that escapes the next character. -/
  | escaped (start : Nat) (text : List Char)
  /-- In a bare token. -/
  | bare (text : List Char)
  deriving DecidableEq, Repr, Inhabited

/-- The token whose characters were collected in reverse. -/
def Token.ofReverse (text : List Char) (line : Nat) : Token := ⟨String.ofList text.reverse, line⟩

/-- The tokens of the characters, from the middle of a scan on. -/
def scan : Scan → Nat → List Char → Except TokenError (List Token)
  | .gap, _, [] => .ok []
  | .lineComment, _, [] => .ok []
  | .opening start, _, [] => .error (.unterminatedComment start)
  | .comment start _, _, [] => .error (.unterminatedComment start)
  | .quoted start _, _, [] => .error (.unterminatedString start)
  | .escaped start _, _, [] => .error (.unterminatedString start)
  | .bare text, line, [] => .ok [.ofReverse text line]
  | .gap, line, c :: cs =>
    if c = '\n' then scan .gap (line + 1) cs
    else if Text.isBlank c then scan .gap line cs
    else if c = '#' then scan .lineComment line cs
    else if c = '/' ∧ cs.head? = some '/' then scan .lineComment line cs
    else if c = '/' ∧ cs.head? = some '*' then scan (.opening line) line cs
    else if c = '"' then scan (.quoted line []) line cs
    else scan (.bare [c]) line cs
  | .lineComment, line, c :: cs =>
    if c = '\n' then scan .gap (line + 1) cs else scan .lineComment line cs
  | .opening start, line, _ :: cs => scan (.comment start false) line cs
  | .comment start star, line, c :: cs =>
    if c = '\n' then scan (.comment start false) (line + 1) cs
    else if c = '/' ∧ star then scan .gap line cs
    else scan (.comment start (c == '*')) line cs
  | .quoted start text, line, c :: cs =>
    if c = '"' then (scan .gap line cs).map (.ofReverse text start :: ·)
    else if c = '\\' ∧ (cs.head? = some '"' ∨ cs.head? = some '\\') then
      scan (.escaped start text) line cs
    else if c = '\n' then scan (.quoted start (c :: text)) (line + 1) cs
    else scan (.quoted start (c :: text)) line cs
  | .escaped start text, line, c :: cs => scan (.quoted start (c :: text)) line cs
  | .bare text, line, c :: cs =>
    if c = '\n' then (scan .gap (line + 1) cs).map (.ofReverse text line :: ·)
    else if Text.isBlank c then (scan .gap line cs).map (.ofReverse text line :: ·)
    else if c = '"' then (scan (.quoted line []) line cs).map (.ofReverse text line :: ·)
    else scan (.bare (c :: text)) line cs

/-- The tokens of a config text. -/
def tokens (text : String) : Except TokenError (List Token) := scan .gap 1 text.toList

/-! ### Between tokens -/

section Gap
variable (n : Nat) (cs : List Char)

theorem scan_blank {c : Char} (h : Text.isBlank c = true) :
    scan .gap n (c :: cs) = scan .gap (n + [c].count '\n') cs := by
  by_cases hline : c = '\n'
  · rw [scan, if_pos hline, hline, List.count_singleton_self]
  · rw [scan, if_neg hline, if_pos h, List.count_cons_of_ne hline, List.count_nil, Nat.add_zero]

theorem scan_hash : scan .gap n ('#' :: cs) = scan .lineComment n cs := by
  rw [scan, if_neg (by decide), if_neg (by decide), if_pos rfl]

theorem scan_slashes : scan .gap n ('/' :: '/' :: cs) = scan .lineComment n cs := by
  rw [scan, if_neg (by decide), if_neg (by decide), if_neg (by decide), if_pos ⟨rfl, rfl⟩, scan,
    if_neg (by decide)]

theorem scan_slashStar : scan .gap n ('/' :: '*' :: cs) = scan (.comment n false) n cs := by
  rw [scan, if_neg (by decide), if_neg (by decide), if_neg (by decide), if_neg (by simp),
    if_pos ⟨rfl, rfl⟩, scan]

theorem scan_quotationMark : scan .gap n ('"' :: cs) = scan (.quoted n []) n cs := by
  rw [scan, if_neg (by decide), if_neg (by decide), if_neg (by decide), if_neg (by simp),
    if_neg (by simp), if_pos rfl]

end Gap

end DevConsole.Config
