import StatementGraph.Toml.Scan

namespace StatementGraph.Toml

/-- A document read so far: its entries, and the table that is open. -/
structure Draft where
  entries : Entries := []
  current : List String := []

/-- Give a key a value in the open table. -/
def Draft.assign (d : Draft) (key : List String) (v : Value) : Option Draft := do
  let entries ← descend false (assignKey key v) d.current ⟨false, d.entries⟩
  return { d with entries }

/-- Open the table or the series of tables at the end of a path. -/
def Draft.openAt (d : Draft) (how : String → Level → Option Entries) (path : List String) :
    Option Draft := do
  let last ← path.getLast?
  let entries ← descend false (how last) path.dropLast ⟨false, d.entries⟩
  return { entries, current := path }

def line (d : Draft) (cs : List Char) : Option (Draft × List Char) :=
  match cs with
  | '[' :: '[' :: rest => do
    let (path, rest) ← keyPath rest
    let rest ← expect ']' rest
    let rest ← expect ']' rest
    let rest ← lineEnd rest
    let d ← d.openAt openSeries path
    return (d, rest)
  | '[' :: rest => do
    let (path, rest) ← keyPath rest
    let rest ← expect ']' rest
    let rest ← lineEnd rest
    let d ← d.openAt openTable path
    return (d, rest)
  | _ => do
    let ((key, v), rest) ← keyValue value cs
    let rest ← lineEnd rest
    let d ← d.assign key v
    return (d, rest)

def lines : Nat → Draft → List Char → Option Entries
  | 0, _, _ => none
  | fuel + 1, d, cs =>
    match skipBlanks cs with
    | [] => some d.entries
    | '\n' :: rest => lines fuel d rest
    | '\x0d' :: '\n' :: rest => lines fuel d rest
    | '#' :: rest => do
      let rest ← lineEnd ('#' :: rest)
      lines fuel d rest
    | cs => do
      let (d, rest) ← line d cs
      lines fuel d rest

/-- The entries of a document. A byte order mark in front does not count. -/
def read (source : String) : Option Entries :=
  let cs := match source.toList with
    | '\ufeff' :: rest => rest
    | cs => cs
  lines (cs.length + 1) {} cs

end StatementGraph.Toml
