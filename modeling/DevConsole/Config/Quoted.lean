import DevConsole.Text.Blank
import DevConsole.Text.Join

/-!
# Values in a config text

A value is written bare where it can be read back so, and else between double quotes with a
backslash before each quote and backslash.
-/

namespace DevConsole.Config

/-- The value has to be quoted: it is empty, or holds white space, a quote, or something that
would start a comment. -/
def needsQuotes (cs : List Char) : Bool :=
  cs.isEmpty || cs.any (fun c => Text.isBlank c || c == '"' || c == '#') ||
    Text.occursIn ['/', '/'] cs || Text.occursIn ['/', '*'] cs

/-- The characters with a backslash before each quote and backslash. -/
def escape : List Char → List Char
  | [] => []
  | c :: cs => if c = '"' ∨ c = '\\' then '\\' :: c :: escape cs else c :: escape cs

/-- The characters between quotes. -/
def enquote (cs : List Char) : List Char := '"' :: escape cs ++ ['"']

/-- The written form of a value. -/
def quote (value : String) : String :=
  let cs := value.toList
  if needsQuotes cs then String.ofList (enquote cs) else value

end DevConsole.Config
