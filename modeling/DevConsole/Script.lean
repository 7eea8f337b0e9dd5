import DevConsole.Disk
import DevConsole.Editor.Recorder
import DevConsole.Text.Lines

/-!
# Script files

A script is a text with one line of the console on each of its lines. Blank lines and lines that
start with `//` or `#` are not run. A recording is written as such a file.
-/

namespace DevConsole.Script

/-- The line is nothing to run. -/
def isSkipped (cs : List Char) : Bool :=
  cs.isEmpty || ['/', '/'].isPrefixOf cs || cs.head? == some '#'

/-- The lines to run, without white space around them. -/
def lines (text : String) : List String :=
  ((Text.lines text).map Text.trim).filter fun line => !isSkipped line.toList

/-- The lines to run of a file. -/
def read (d : Disk) (path : String) : Except ConsoleError (List String) :=
  match d.readText path with
  | .error fault => .error (.file path fault)
  | .ok text => .ok (lines text)

/-- Writes a recording to a file; answers with the number of lines. -/
def write (r : Recorder) (d : Disk) (path : String) : Except ConsoleError (Nat × Disk) :=
  match d.write path r.text.toUTF8 with
  | .error fault => .error (.file path fault)
  | .ok d => .ok (r.lines.size, d)

end DevConsole.Script
