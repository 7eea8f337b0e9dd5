/-!
# Joined texts

`join` puts a separator between the texts of a list, and `contains` looks for a text inside
another.
-/

namespace DevConsole.Text

/-- The texts with a separator between neighbours. -/
def join (separator : String) : List String → String
  | [] => ""
  | [s] => s
  | s :: t :: rest => s ++ separator ++ join separator (t :: rest)

/-- The first text occurs somewhere in the second. -/
def occursIn (part : List Char) : List Char → Bool
  | [] => part.isEmpty
  | c :: cs => part.isPrefixOf (c :: cs) || occursIn part cs

/-- The second text occurs somewhere in the first. -/
def contains (s part : String) : Bool := occursIn part.toList s.toList

theorem toList_join_cons (separator s : String) (ss : List String) :
    (join separator (s :: ss)).toList =
      s.toList ++ ss.flatMap fun t => separator.toList ++ t.toList := by
  induction ss generalizing s with
  | nil => simp [join]
  | cons t ss ih => simp [join, ih]

theorem occursIn_iff {part cs : List Char} : occursIn part cs = true ↔ part <:+: cs := by
  induction cs with
  | nil => simp [occursIn]
  | cons c cs ih => simp [occursIn, ih, List.infix_cons_iff]

end DevConsole.Text
