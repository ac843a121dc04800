import StatementGraph.Failure
import StatementGraph.Toml.Document
import StatementGraph.Toml.Writer

namespace StatementGraph

/-- Where an engine keeps its archive, how long it waits for a lock and what it can undo. -/
structure Config where
  dataDir : Option String := none
  lockTimeout : Nat := 5000
  undoDepth : Nat := 32
deriving DecidableEq

namespace Config

def validate (c : Config) : Except Failure Unit :=
  if c.undoDepth = 0 then .error (.engine (.invalidConfig "undo_depth must be > 0")) else .ok ()

def textOf : Toml.Value → Option String
  | .text s => some s
  | _ => none

def naturalOf : Toml.Value → Option Nat
  | .integer (.ofNat n) => some n
  | _ => none

/-- The value of a key, or a default if the key is missing. -/
def field {α : Type} (entries : Toml.Entries) (key : String) (default : α)
    (read : Toml.Value → Option α) : Option α :=
  match entries.find? key with
  | some v => read v
  | none => some default

/-- The configuration in a document. Missing keys have their defaults, unknown keys do not count. -/
def ofEntries (entries : Toml.Entries) : Option Config := do
  let defaults : Config := {}
  let dataDir ← field entries "data_dir" defaults.dataDir fun v => (textOf v).map some
  let lockTimeout ← field entries "lock_timeout_ms" defaults.lockTimeout naturalOf
  let undoDepth ← field entries "undo_depth" defaults.undoDepth naturalOf
  return { dataDir, lockTimeout, undoDepth }

def parse (path source : String) : Except Failure Config :=
  match (Toml.read source).bind ofEntries with
  | some config => .ok config
  | none => .error (.engine (.configParse path "not a configuration"))

/-- Load a configuration from a file that may be missing. -/
def load (path : String) : Option String → Except Failure Config
  | some source => parse path source
  | none => .error (.engine (.configRead path "no such file"))

def writeLine (key value : String) : String := key ++ " = " ++ value ++ "\n"

def writeNumber (n : Nat) : Option String :=
  if n ≤ 9223372036854775807 then some (toString n) else none

def render (c : Config) : Option String := do
  let dir := match c.dataDir with
    | some dir => writeLine "data_dir" (Toml.writeString dir)
    | none => ""
  let timeout ← writeNumber c.lockTimeout
  let depth ← writeNumber c.undoDepth
  return dir ++ writeLine "lock_timeout_ms" timeout ++ writeLine "undo_depth" depth

inductive Place where
  /-- A file in a directory that is there or can be made. -/
  | file
  /-- A path below a plain file. -/
  | underFile
  /-- A path that is a directory. -/
  | directory

/-- Save a configuration: the text that the file then has. -/
def save (c : Config) (path : String) (place : Place) : Except Failure String :=
  match c.render with
  | none => .error (.engine (.configParse path "number out of range"))
  | some source =>
    match place with
    | .file => .ok source
    | .underFile => .error (.engine (.configWrite path "not a directory"))
    | .directory => .error (.engine (.configWrite path "is a directory"))

end Config

end StatementGraph
