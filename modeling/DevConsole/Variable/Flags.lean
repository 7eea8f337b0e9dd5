import DevConsole.Text.Join

/-!
# Flags of variables

What may be done with a variable from the console, and what is told about it. A set of flags is a
word with one bit for each.
-/

namespace DevConsole

/-- A property of a variable. -/
inductive Flag
  /-- Can be changed from the console only while cheats are allowed. -/
  | cheat
  /-- Cannot be changed from the console. -/
  | system
  /-- Is written to config files. -/
  | persistent
  /-- A change takes effect after a restart. -/
  | latch
  /-- Was created at the console. -/
  | user
  /-- Waits for a registration under its name. -/
  | temp
  /-- Is meant for debugging; the console warns of a change. -/
  | debug
  deriving DecidableEq, Repr, Inhabited

/-- All flags in the order in which they are listed. -/
def Flag.all : List Flag := [.cheat, .system, .persistent, .latch, .user, .temp, .debug]

/-- The flag's name in listings. -/
def Flag.name : Flag → String
  | .cheat => "cheat"
  | .system => "system"
  | .persistent => "persistent"
  | .latch => "latch"
  | .user => "user"
  | .temp => "temp"
  | .debug => "debug"

/-- The bit that stands for the flag. -/
def Flag.bit : Flag → BitVec 7
  | .cheat => 0b0000001
  | .system => 0b0000010
  | .persistent => 0b0000100
  | .latch => 0b0001000
  | .user => 0b0010000
  | .temp => 0b0100000
  | .debug => 0b1000000

/-- A set of flags. -/
structure Flags where
  bits : BitVec 7 := 0
  deriving DecidableEq, Repr, Inhabited

namespace Flags

/-- No flags. -/
def empty : Flags := {}

/-- The flags of both sets. -/
def union (a b : Flags) : Flags := ⟨a.bits ||| b.bits⟩

/-- The flags of the first set that the second does not have. -/
def difference (a b : Flags) : Flags := ⟨a.bits &&& ~~~b.bits⟩

/-- The flags of exactly one of the sets. -/
def toggle (a b : Flags) : Flags := ⟨a.bits ^^^ b.bits⟩

/-- The set of one flag. -/
def single (f : Flag) : Flags := ⟨f.bit⟩

/-- The set of the flags in a list. -/
def ofList (fs : List Flag) : Flags := fs.foldl (fun a f => a.union (single f)) empty

/-- All flags of the second set are in the first. -/
def contains (a b : Flags) : Bool := a.bits &&& b.bits == b.bits

/-- The flag is in the set. -/
def has (a : Flags) (f : Flag) : Bool := a.contains (single f)

/-- There are no flags. -/
def isEmpty (a : Flags) : Bool := a.bits == 0

/-- The names of the flags in brackets; nothing for no flags. -/
def describe (a : Flags) : String :=
  match Flag.all.filter a.has with
  | [] => ""
  | fs => "[" ++ Text.join " " (fs.map Flag.name) ++ "]"

end Flags

end DevConsole
