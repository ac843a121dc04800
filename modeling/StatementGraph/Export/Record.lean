import StatementGraph.Export.Json
import StatementGraph.Graph.Order

namespace StatementGraph

structure Record where
  id : Nat
  context : Option Nat
  kind : String
  identifier : Option String
  term : String
  proved : Bool
  dependencies : List Nat
  /-- The value of a declaration or the argument of a specialization. -/
  value : Option String
  /-- The general statement of a specialization or the declaration that is unfolded. -/
  general : Option Nat
  assumptions : List Nat
  consequent : Option String

/-- The text of what a declaration or a specialization brings of its own. -/
def StatementKind.valueText? : StatementKind → Option String
  | declaration value => some value.text
  | specialization _ argument => some argument.text
  | _ => none

def Statement.record (st : Statement) : Record where
  id := st.id.raw
  context := st.owner.map StatementId.raw
  kind := st.kind.label
  identifier := st.identifier.map Identifier.text
  term := st.term.text
  proved := st.proved
  dependencies := st.dependencies.toList.map StatementId.raw
  value := st.kind.valueText?
  general := st.reference?.map StatementId.raw
  assumptions := st.assumptions.map StatementId.raw
  consequent := st.consequent?.map Term.text

namespace Json

def textOrNull : Option String → Json
  | some value => .text value
  | none => .null

def numberOrNull : Option Nat → Json
  | some value => .number value
  | none => .null

end Json

def Record.fields (r : Record) : List (String × Json) :=
  [("id", .number r.id),
    ("context", .numberOrNull r.context),
    ("kind", .text r.kind),
    ("identifier", .textOrNull r.identifier),
    ("term", .text r.term),
    ("proved", .bool r.proved),
    ("dependencies", .list (r.dependencies.map .number)),
    ("value", .textOrNull r.value),
    ("general", .numberOrNull r.general),
    ("assumptions", .list (r.assumptions.map .number)),
    ("consequent", .textOrNull r.consequent)]

namespace Store

/-- A context and its inside as records, each after its owner and what it depends on. -/
def exportContext (s : Store) (context : StatementId) : Except Failure (List Record) := do
  let _ ← s.requireContext context
  let ids := s.dependencySorted (s.subtree context).toList true
  return (ids.filterMap s.get?).map Statement.record

def exportJson (s : Store) (context : StatementId) : Except Failure String := do
  let records ← s.exportContext context
  return (Json.list (records.map fun r => .object r.fields)).pretty

end Store

end StatementGraph
