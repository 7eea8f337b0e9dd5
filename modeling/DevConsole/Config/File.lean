import DevConsole.Config.Assignments
import DevConsole.Disk

/-!
# Config files

A store is saved to a file, which may lie in directories still to be made, and loaded from one.
-/

namespace DevConsole.Config

/-- What becomes of the old content of a file. -/
inductive SaveMode
  | overwrite
  | append
  deriving DecidableEq, Repr, Inhabited

/-- The disk with the directory of a file. A failure names the directory. -/
def prepare (d : Disk) (path : String) : Disk × Except ConsoleError Unit :=
  let parent := Path.parent path
  if parent = "" || d.pathExists parent then (d, .ok ())
  else
    let (d, made) := d.makeDirectories parent
    (d, made.mapError (.file parent))

/-- Writes the persistent variables to a file; answers with their number. -/
def save (s : Variables) (d : Disk) (path : String) (mode : SaveMode) :
    Except ConsoleError Nat × Disk :=
  match prepare d path with
  | (d, .error e) => (.error e, d)
  | (d, .ok ()) =>
    let bytes := (text s).toUTF8
    let written :=
      match mode with
      | .overwrite => d.write path bytes
      | .append => d.append path bytes
    match written with
    | .error fault => (.error (.file path fault), d)
    | .ok d => (.ok (listed s).length, d)

/-- Reads a file into a store. -/
def loadFile (s : Variables) (d : Disk) (path : String) : Except ConsoleError Loaded :=
  match d.readText path with
  | .error fault => .error (.file path fault)
  | .ok text => load s text path

end DevConsole.Config
