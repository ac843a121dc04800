import StatementGraph.Identifier
import StatementGraph.Term.Equality

namespace StatementGraph

inductive ContextKind where
  /-- A part of a proof inside another context. -/
  | nested
  /-- The top of a proof. -/
  | root
  /-- A context that reads its term with one declaration unfolded to its value. -/
  | unfolding (declaration : StatementId)
deriving DecidableEq

/-- The assumptions of a context in order, and the consequent that is left of its term. -/
structure ContextData where
  kind : ContextKind
  assumptions : List StatementId
  consequent : Term
deriving BEq

inductive StatementKind where
  /-- A hypothesis of its owner, at a position. -/
  | assumption (order : Nat)
  /-- A value; the statement's term is its type. -/
  | declaration (value : Term)
  /-- A general statement composed with an argument. -/
  | specialization (general : StatementId) (argument : Term)
  /-- A scope with assumptions and a consequent. -/
  | context (data : ContextData)
deriving BEq

def StatementKind.label : StatementKind → String
  | assumption _ => "assumption"
  | declaration _ => "declaration"
  | specialization _ _ => "specialization"
  | context data =>
    match data.kind with
    | .nested => "context"
    | .root => "root-context"
    | .unfolding _ => "unfolding-context"

/-- A node of the graph. `proved` caches the proof rule. -/
structure Statement where
  id : StatementId
  owner : Option StatementId
  term : Term
  proved : Bool
  dependencies : IdSet
  identifier : Option Identifier
  kind : StatementKind
deriving BEq

namespace Statement

def toVar (st : Statement) : Term := .var st.id st.term

def isAssumption (st : Statement) : Bool :=
  match st.kind with
  | .assumption _ => true
  | _ => false

def order? (st : Statement) : Option Nat :=
  match st.kind with
  | .assumption order => some order
  | _ => none

def contextData? (st : Statement) : Option ContextData :=
  match st.kind with
  | .context data => some data
  | _ => none

def isContext (st : Statement) : Bool := st.contextData?.isSome

def isRoot (st : Statement) : Bool := st.contextData?.any fun data => data.kind = .root

def consequent? (st : Statement) : Option Term := st.contextData?.map ContextData.consequent

/-- The assumptions of a context in order; none for other kinds. -/
def assumptions (st : Statement) : List StatementId :=
  (st.contextData?.map ContextData.assumptions).getD []

/-- The statement that the kind names: the general statement or the unfolded declaration. -/
def reference? (st : Statement) : Option StatementId :=
  match st.kind with
  | .specialization general _ => some general
  | .context ⟨.unfolding declaration, _, _⟩ => some declaration
  | _ => none

def params (st : Statement) : List ParamId :=
  st.term.params ++
    match st.kind with
    | .assumption _ => []
    | .declaration value => value.params
    | .specialization _ argument => argument.params
    | .context data => data.consequent.params

/-- The text of a statement: kind, name, id and term. -/
def text (st : Statement) : String :=
  let name := match st.identifier with
    | some name => name.text ++ " "
    | none => ""
  st.kind.label ++ " " ++ name ++ "[" ++ st.id.text ++ "]: " ++ st.term.text

/-- The number of bytes of what the statement would add to a written proof. -/
def weight (st : Statement) : Nat :=
  match st.kind with
  | .declaration value => value.weight
  | .specialization _ argument => 8 + argument.weight
  | _ => st.term.weight

end Statement

end StatementGraph
