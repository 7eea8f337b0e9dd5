import DevConsole.Config.Quoted
import DevConsole.Config.Token
import DevConsole.Variables

/-!
# Variables in a config text

The text lists the persistent variables in name order, a line with name and value for each, under a
header that is a comment. Reading goes token by token: one that names a variable takes the next one
as its value, and any other is skipped. No variable is ever created.
-/

namespace DevConsole.Config

/-- The first line of a written text. -/
def header : String := "// generated by bevy_console_shell, do not modify"

/-- The variables that a written text lists. -/
def listed (s : Variables) : List Variable := s.sorted.filter (·.flags.has .persistent)

/-- The line of one variable. -/
def line (v : Variable) : String := v.name ++ " " ++ quote v.views.string ++ "\n"

/-- The text that keeps the persistent variables. -/
def text (s : Variables) : String := header ++ "\n" ++ String.join ((listed s).map line)

/-- What reading a text leads to. -/
structure Loaded where
  /-- The number of assignments. -/
  count : Nat := 0
  store : Variables
  /-- The tokens that named no variable, in order. -/
  skipped : List String := []

/-- Assigns the tokens' values, where `l` is what was done so far. -/
def assign (l : Loaded) : List Token → Loaded
  | [] => l
  | t :: ts =>
    if l.store.contains t.text then
      match ts with
      | [] => l
      | v :: ts =>
        assign
          { l with
            count := l.count + 1
            store := (l.store.set? t.text (.text v.text)).getD l.store } ts
    else assign { l with skipped := l.skipped ++ [t.text] } ts

/-- Reads a text into a store; `path` is the file that an error speaks of. -/
def load (s : Variables) (text path : String) : Except ConsoleError Loaded :=
  match tokens text with
  | .error e => .error (.malformed path e.line e.message)
  | .ok ts => .ok (assign { store := s } ts)

end DevConsole.Config
