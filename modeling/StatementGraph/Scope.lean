import StatementGraph.Graph.Order

namespace StatementGraph

namespace Store

/-- Whether a statement may be mentioned inside a context. -/
def isVisible (s : Store) (id context : StatementId) : Bool :=
  (s.ownerOf id).any fun owner => s.isWithin context owner

/-- Every statement seen from a context, nearest owner first. -/
def visible (s : Store) (context : StatementId) : List StatementId :=
  (s.contextPath context).flatMap s.localsOf

/-- The statements seen from a context that assert a term, nearest owner first. -/
def visibleByTerm (s : Store) (context : StatementId) (term : Term) : List StatementId :=
  (s.contextPath context).flatMap fun ctx => s.localsByTerm ctx term

/-- The statements that would solve a context with a consequent. -/
def solversFor (s : Store) (context : StatementId) (consequent : Term) : List StatementId :=
  (s.visibleByTerm context consequent).filter (· ≠ context)

def solvers (s : Store) (context : StatementId) : Except Failure (List StatementId) := do
  let st ← s.requireContext context
  return s.solversFor context (st.consequent?.getD .tau)

def sortedLocals (s : Store) (context : StatementId) : Except Failure (List StatementId) := do
  let _ ← s.requireContext context
  return s.dependencySorted (s.localsOf context) true

/-- Whether nothing that a statement and its inside depend on is local to a context. -/
def independent (s : Store) (context id : StatementId) : Except Failure Bool := do
  let _ ← s.requireContext context
  let st ← s.require id
  let members := s.membersOf st
  return members.toList.all fun member =>
    match s.get? member with
    | none => true
    | some m => m.dependencies.toList.all fun dep =>
      dep ∈ members || s.ownerOf dep ≠ some context

/-- The statement with a name, looked for from a context outwards and last among the roots. -/
def resolve (s : Store) (context : StatementId) (name : Identifier) : Option StatementId :=
  ((s.contextPath context).findSome? fun ctx => s.lookupName (some ctx) name).or
    (s.lookupName none name)

def placeText : Option StatementId → String
  | some context => context.text
  | none => "root"

/-- Check one variable of a term asserted in a context, or as a root, where nothing is visible. -/
def checkVariable (s : Store) (context : Option StatementId) (occurrence : StatementId × Term) :
    Except Failure Unit :=
  let (id, type) := occurrence
  let unbound : Failure := .structural (.unboundVariable id.raw (placeText context))
  match s.get? id with
  | none => .error unbound
  | some st =>
    if context.any fun ctx => s.isVisible id ctx then
      if type == st.term then .ok () else .error (.structural (.variableTypeMismatch id.raw))
    else .error unbound

/-- Check that a term can be asserted in a context, or as a root. -/
def validate (s : Store) (context : Option StatementId) (term : Term) : Except Failure Unit :=
  if term.castFree then term.occurrences.forM (s.checkVariable context)
  else .error (.structural (.notCastFree term.text))

end Store

end StatementGraph
