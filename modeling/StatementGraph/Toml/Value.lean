namespace StatementGraph.Toml

/-- A value. Numbers with a fraction and points in time are told apart but not kept. -/
inductive Value where
  | text (content : String)
  | integer (number : Int)
  | float
  | boolean (flag : Bool)
  | moment
  | array (items : List Value)
  /-- A table in braces, which is complete as written. -/
  | inline (entries : List (String × Value))
  /-- A table that can grow. It is `implicit` until a header names it, and `dotted` if it came about
  by a dotted key. -/
  | table (implicit dotted : Bool) (entries : List (String × Value))
  /-- An array of tables under repeated headers, the newest first. -/
  | series (tables : List (List (String × Value)))

abbrev Entries := List (String × Value)

def Entries.find? (entries : Entries) (key : String) : Option Value :=
  (List.find? (fun e => e.1 = key) entries).map Prod.snd

/-- Give a key a value, in place of the one it had. -/
def Entries.set (entries : Entries) (key : String) (value : Value) : Entries :=
  if (entries.find? key).isSome then entries.map fun e => if e.1 = key then (key, value) else e
  else entries ++ [(key, value)]

/-- A table on the way to a key: whether it came about by a dotted key, and its entries. -/
structure Level where
  dotted : Bool
  entries : Entries

/-- Change the table at the end of a path, making the tables on the way that are missing. -/
def descend (byDots : Bool) (change : Level → Option Entries) :
    List String → Level → Option Entries
  | [], level => change level
  | key :: path, level =>
    match level.entries.find? key with
    | none => do
      let inner ← descend byDots change path ⟨byDots, []⟩
      return level.entries.set key (.table true byDots inner)
    | some (.table implicit dotted entries) =>
      if byDots && !implicit then none
      else do
        let inner ← descend byDots change path ⟨dotted, entries⟩
        return level.entries.set key (.table implicit dotted inner)
    | some (.series (newest :: older)) => do
      let inner ← descend byDots change path ⟨false, newest⟩
      return level.entries.set key (.series (inner :: older))
    | some _ => none

/-- Give the last key of a dotted key its value. -/
def assign (path : List String) (key : String) (value : Value) (level : Level) : Option Entries :=
  descend true (fun inner =>
    if inner.dotted = path.isEmpty then none
    else if (inner.entries.find? key).isSome then none
    else some (inner.entries.set key value)) path level

def assignKey (key : List String) (value : Value) (level : Level) : Option Entries :=
  match key.getLast? with
  | some last => assign key.dropLast last value level
  | none => none

def openTable (key : String) (level : Level) : Option Entries :=
  match level.entries.find? key with
  | none => some (level.entries.set key (.table false false []))
  | some (.table true false entries) => some (level.entries.set key (.table false false entries))
  | some _ => none

/-- Open one more table of the series that a header names. -/
def openSeries (key : String) (level : Level) : Option Entries :=
  match level.entries.find? key with
  | none => some (level.entries.set key (.series [[]]))
  | some (.series tables) => some (level.entries.set key (.series ([] :: tables)))
  | some _ => none

end StatementGraph.Toml
