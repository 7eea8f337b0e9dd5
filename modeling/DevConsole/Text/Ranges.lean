/-!
# Classes of characters as ranges

A class of characters that a standard lists is a list of closed ranges of code points, in which
`covers` looks a code point up.
-/

namespace DevConsole.Text

/-- The code point lies in one of the closed ranges. -/
def covers (rs : List (Nat × Nat)) (n : Nat) : Bool :=
  rs.any fun r => r.1 ≤ n && n ≤ r.2

end DevConsole.Text
