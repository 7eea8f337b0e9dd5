/-!
# Submitted lines

The lines that were submitted, which can be called back by how long ago that was.
-/

namespace DevConsole

/-- The submitted lines, oldest first. -/
structure History where
  lines : List String := []
  deriving DecidableEq, Repr, Inhabited

namespace History

/-- No lines. -/
def empty : History := {}

/-- The number of lines. -/
def size (h : History) : Nat := h.lines.length

/-- Adds a line. -/
def push (h : History) (line : String) : History := ⟨h.lines ++ [line]⟩

/-- The line `back` submissions ago, 1 being the last one. Beyond the oldest line the oldest one is
meant. -/
def get? (h : History) (back : Nat) : Option String :=
  if back = 0 then none else h.lines[h.size - min back h.size]?

end History

end DevConsole
