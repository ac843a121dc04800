import StatementGraph.Text.Printable

namespace StatementGraph

/-- A JSON document. Numbers are natural, and the fields of an object keep their order. -/
inductive Json where
  | null
  | bool (value : Bool)
  | number (value : Nat)
  | text (value : String)
  | list (items : List Json)
  | object (fields : List (String × Json))

namespace Json

/-- A character inside a string: control characters have short or numeric escapes. -/
def escapedChar (c : Char) : String :=
  match c with
  | '"' => "\\\""
  | '\\' => "\\\\"
  | '\n' => "\\n"
  | '\t' => "\\t"
  | '\r' => "\\r"
  | _ =>
    if c.toNat = 8 then "\\b"
    else if c.toNat = 12 then "\\f"
    else if c.toNat < 16 then "\\u000" ++ Text.hex c.toNat
    else if c.toNat < 32 then "\\u00" ++ Text.hex c.toNat
    else c.toString

def quoted (s : String) : String := "\"" ++ String.join (s.toList.map escapedChar) ++ "\""

def indent (depth : Nat) : String := String.ofList (List.replicate (2 * depth) ' ')

/-- A bracketed list of texts, each on a line of its own, or the bare brackets. -/
def block (left right : String) (depth : Nat) (items : List String) : String :=
  if items.isEmpty then left ++ right
  else
    left ++ "\n" ++ String.intercalate ",\n" (items.map (indent (depth + 1) ++ ·)) ++ "\n" ++
      indent depth ++ right

mutual

/-- The text of a document that starts at a depth of indentation. -/
def textAt (depth : Nat) : Json → String
  | null => "null"
  | bool value => if value then "true" else "false"
  | number value => toString value
  | text value => quoted value
  | list items => block "[" "]" depth (itemsAt (depth + 1) items)
  | object fields => block "\x7b" "\x7d" depth (fieldsAt (depth + 1) fields)

def itemsAt (depth : Nat) : List Json → List String
  | [] => []
  | item :: rest => textAt depth item :: itemsAt depth rest

def fieldsAt (depth : Nat) : List (String × Json) → List String
  | [] => []
  | (key, value) :: rest => (quoted key ++ ": " ++ textAt depth value) :: fieldsAt depth rest

end

def pretty (document : Json) : String := document.textAt 0

end Json

end StatementGraph
