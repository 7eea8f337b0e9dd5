import DevConsole.Error
import DevConsole.Text.Blank
import DevConsole.Text.Bytes
import DevConsole.Text.Join

/-!
# Files

A tree of directories and files around one directory, the top, from which all paths start. A path
is walked name by name: each step needs a directory to start from, `.` stays, `..` goes up, and a
slash at the end asks for a directory. Above the top there are directories too; of these only is
known what was put there. What can go wrong on the way has a fixed order, since the first step that
fails decides.

A place is given by the names that lead to it from the top, in their shortest form: `..` stands at
their start only.
-/

namespace DevConsole

/-- What a path can lead to. -/
inductive Node
  | directory
  | file (content : ByteArray)
  deriving Inhabited

/-- Directories and files by their places. -/
structure Disk where
  nodes : List (List String × Node) := []
  deriving Inhabited

/-- A path as it is walked. -/
structure Path where
  /-- The names between slashes. -/
  names : List String
  /-- A slash stands at the end. -/
  asDirectory : Bool
  deriving DecidableEq, Repr, Inhabited

namespace Path

/-- The most bytes that a name may have. -/
def maxName : Nat := 255

/-- The least number of bytes for which a path is too long. -/
def tooLong : Nat := 4096

/-- The pieces of a path between slashes. -/
def pieces (path : String) : List (List Char) := Text.pieces (· == '/') path.toList

/-- Reads a path. -/
def ofText (path : String) : Path where
  names := ((pieces path).filter (· ≠ [])).map String.ofList
  asDirectory := path ≠ "" && (pieces path).getLast? == some []

/-- Drops pieces that do not count from the end of a path whose pieces are given in reverse: empty
ones, and `.` anywhere but at the start. -/
def dropHollow : List (List Char) → List (List Char)
  | [] => []
  | [p] => if p = [] then [] else [p]
  | p :: ps => if p = [] ∨ p = ['.'] then dropHollow ps else p :: ps

/-- Why a path leads nowhere, whatever is on the disk. -/
def fault? (path : String) : Option FileFault :=
  if '\x00' ∈ path.toList then some .zeroInPath
  else if path = "" then some .missing
  else if tooLong ≤ Text.byteLength path.toList then some .nameTooLong
  else none

/-- The names that are a place of their own on the way; `.` is one at the start only. -/
def stations : List String → List String
  | [] => []
  | name :: names => name :: names.filter (· ≠ ".")

/-- The path without its last name; empty if it has no other. -/
def parent (path : String) : String :=
  let ps := (dropHollow (dropHollow (pieces path).reverse).tail).reverse
  Text.join "/" (ps.map String.ofList)

end Path

namespace Disk

/-- Only the top directory. -/
def empty : Disk := {}

/-- The place is the top or above it. -/
def isTopOrAbove (place : List String) : Bool := place.all (· == "..")

/-- The directory that a place lies in. -/
def above (place : List String) : List String :=
  if isTopOrAbove place then ".." :: place else place.dropLast

/-- What stands at a place. -/
def find? (d : Disk) (place : List String) : Option Node :=
  if isTopOrAbove place then some .directory else d.nodes.lookup place

/-- Puts something at a place. -/
def put (d : Disk) (place : List String) (node : Node) : Disk :=
  ⟨(place, node) :: d.nodes.filter (·.1 ≠ place)⟩

/-- Walks from one place to another. The last name need not be there. -/
def walk (d : Disk) (start : List String) : List String → Except FileFault (List String)
  | [] => .ok start
  | name :: names =>
    match d.find? start with
    | none => .error .missing
    | some (.file _) => .error .notDirectory
    | some .directory =>
      if Path.maxName < Text.byteLength name.toList then .error .nameTooLong
      else if name = "." then d.walk start names
      else if name = ".." then d.walk (above start) names
      else d.walk (start ++ [name]) names

/-- Where a path leads. -/
def resolve (d : Disk) (path : String) : Except FileFault (List String) :=
  match Path.fault? path with
  | some fault => .error fault
  | none => d.walk [] (Path.ofText path).names

/-- What a path leads to. -/
def node (d : Disk) (path : String) : Except FileFault Node := do
  match d.find? (← d.resolve path) with
  | none => throw .missing
  | some .directory => return .directory
  | some (.file content) =>
    if (Path.ofText path).asDirectory then throw .notDirectory else return .file content

/-- The path leads to something. -/
def pathExists (d : Disk) (path : String) : Bool := (d.node path).toOption.isSome

/-- The content of a file. -/
def read (d : Disk) (path : String) : Except FileFault ByteArray := do
  match ← d.node path with
  | .directory => throw .isDirectory
  | .file content => return content

/-- The text of a file. -/
def readText (d : Disk) (path : String) : Except FileFault String := do
  match String.fromUTF8? (← d.read path) with
  | some text => return text
  | none => throw .notText

/-- The place where a file can be written, and its content so far. -/
def writable (d : Disk) (path : String) : Except FileFault (List String × ByteArray) := do
  if let some fault := Path.fault? path then throw fault
  let p := Path.ofText path
  let start ← d.walk [] p.names.dropLast
  match d.find? start with
  | none => throw .missing
  | some (.file _) => throw .notDirectory
  | some .directory =>
    if p.asDirectory then throw .isDirectory
    let place ← d.walk start p.names.getLast?.toList
    match d.find? place with
    | none => return (place, .empty)
    | some .directory => throw .isDirectory
    | some (.file content) => return (place, content)

/-- Writes a file in the place of what it held. -/
def write (d : Disk) (path : String) (content : ByteArray) : Except FileFault Disk := do
  let (place, _) ← d.writable path
  return d.put place (.file content)

/-- Writes to the end of a file. -/
def append (d : Disk) (path : String) (content : ByteArray) : Except FileFault Disk := do
  let (place, old) ← d.writable path
  return d.put place (.file (old ++ content))

/-- Sees to it that a directory stands at the names; the one above it must be there. -/
def ensureDirectory (d : Disk) (names : List String) : Except FileFault Disk := do
  let place ← d.walk [] names
  match d.find? place with
  | none => return d.put place .directory
  | some .directory => return d
  | some (.file _) => throw .alreadyThere

/-- Sees to it that a directory stands at the names. If it is missing from what is above it,
`above` is to mend that, and the names are tried once more. What `above` made stays. -/
def ensureAfter (d : Disk) (names : List String) (above : Disk → Disk × Except FileFault Unit) :
    Disk × Except FileFault Unit :=
  match d.ensureDirectory names with
  | .ok d => (d, .ok ())
  | .error .missing =>
    match above d with
    | (d, .error fault) => (d, .error fault)
    | (d, .ok ()) =>
      match d.ensureDirectory names with
      | .ok d => (d, .ok ())
      | .error fault => (d, .error fault)
  | .error fault => (d, .error fault)

/-- Makes the directory at the stations, the last of which comes first, and those above it. -/
def ensureStations : List String → Disk → Disk × Except FileFault Unit
  | [], d => (d, .ok ())
  | name :: above, d => d.ensureAfter (name :: above).reverse (ensureStations above)

/-- Makes a directory and those above it. Directories made before a failure stay. The whole path is
tried as it is written, so `.` at its end asks for a directory that is there already: what is above
it is made, and the last one is not. -/
def makeDirectories (d : Disk) (path : String) : Disk × Except FileFault Unit :=
  if path = "" then (d, .ok ())
  else
    match Path.fault? path with
    | some fault => (d, .error fault)
    | none =>
      let names := (Path.ofText path).names
      d.ensureAfter names (ensureStations (Path.stations names).reverse.tail)

end Disk

end DevConsole
