import StatementGraph.Text.Printable

namespace StatementGraph.Toml

def longestRun (c : Char) (cs : List Char) : Nat :=
  (cs.foldl (fun (best, run) d =>
    let run := if d = c then run + 1 else 0
    (if best < run then run else best, run)) (0, 0)).1

/-- A control character for which only double quotes have a form. -/
def needsCode (c : Char) : Bool := (c < ' ' && c ≠ '\t' && c ≠ '\n') || c = '\x7f'

def fourHex (n : Nat) : String :=
  let digits := (Text.hex n).toUpper
  String.ofList (List.replicate (4 - digits.length) '0') ++ digits

/-- One character between double quotes; `long` says that there are three of them. -/
def escapedChar (long : Bool) (c : Char) : String :=
  if c = '\x08' then "\\b"
  else if c = '\t' then "\\t"
  else if c = '\n' then if long then "\n" else "\\n"
  else if c = '\x0c' then "\\f"
  else if c = '\x0d' then "\\r"
  else if c = '\\' then "\\\\"
  else if needsCode c then "\\u" ++ fourHex c.toNat
  else String.singleton c

/-- The text between double quotes, where more than `allowed` quotes in a row are escaped. -/
def escaped (long : Bool) (allowed : Nat) (cs : List Char) : String :=
  (cs.foldl (fun (out, run) c =>
    if c = '"' then
      if run < allowed then (out ++ "\"", run + 1) else (out ++ "\\\"", 0)
    else (out ++ escapedChar long c, 0)) ("", 0)).1

def writeString (s : String) : String :=
  let cs := s.toList
  let coded := cs.any needsCode
  let backslash := cs.any (· = '\\')
  let lineEnds := cs.any (· = '\n')
  let doubles := longestRun '"' cs
  let singles := longestRun '\'' cs
  let first := if lineEnds then "\n" else ""
  let short := "\"" ++ escaped false 0 cs ++ "\""
  let long := "\"\"\"" ++ first ++ escaped true 2 cs ++ "\"\"\""
  if !coded && !backslash && doubles = 0 && !lineEnds then short
  else if !coded && singles = 0 && !lineEnds then "'" ++ s ++ "'"
  else if !coded && !backslash && doubles ≤ 2 then long
  else if !coded && singles ≤ 2 then "'''" ++ first ++ s ++ "'''"
  else if lineEnds then long
  else short

end StatementGraph.Toml
