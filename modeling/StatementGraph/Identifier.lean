import StatementGraph.Failure

namespace StatementGraph

def Identifier.isStart (c : Char) : Bool := c.isAlpha || c = '_'

def Identifier.isPart (c : Char) : Bool := c.isAlphanum || c = '_' || c = '\''

/-- Whether a text matches `[A-Za-z_][A-Za-z0-9_']*(\.[A-Za-z_][A-Za-z0-9_']*)*`, read from left to
right, where `atStart` says that a component has to start here. -/
def Identifier.scan (atStart : Bool) : List Char → Bool
  | [] => !atStart
  | c :: rest =>
    if atStart then isStart c && scan false rest
    else if c = '.' then scan true rest
    else isPart c && scan false rest

/-- A well-formed name. -/
structure Identifier where
  text : String
  valid : Identifier.scan true text.toList = true
deriving DecidableEq

namespace Identifier

/-- The name with a given text, if the text is well formed. -/
def ofString? (raw : String) : Option Identifier :=
  if h : scan true raw.toList = true then some ⟨raw, h⟩ else none

/-- The name with a given text, or the failure that the text is none. -/
def parse (raw : String) : Except Failure Identifier :=
  match ofString? raw with
  | some name => .ok name
  | none => .error (.naming (.invalidIdentifier raw))

def splitDots : List Char → List (List Char)
  | [] => [[]]
  | c :: rest =>
    if c = '.' then [] :: splitDots rest
    else
      match splitDots rest with
      | [] => [[c]]
      | first :: others => (c :: first) :: others

def components (name : Identifier) : List String := (splitDots name.text.toList).map String.ofList

def space (name : Identifier) : List String := name.components.dropLast

/-- The last component: what comes after the last dot, read from the end. -/
def last (name : Identifier) : String :=
  String.ofList (name.text.toList.reverse.takeWhile (· ≠ '.')).reverse

def le (a b : Identifier) : Bool := a.text ≤ b.text

/-- Names in ascending order; equal names all stay. -/
def sort (names : List Identifier) : List Identifier := names.mergeSort le

end Identifier

end StatementGraph
