import StatementGraph.Graph.Walk
import StatementGraph.Store

namespace StatementGraph

namespace Store

/-- The owners from `current` upwards that were not met before, nearest first. -/
def climb (s : Store) : Nat → List StatementId → Option StatementId → List StatementId
  | 0, _, _ => []
  | _ + 1, _, none => []
  | steps + 1, met, some current =>
    if current ∈ met then [] else current :: climb s steps (current :: met) (s.ownerOf current)

/-- The contexts around a statement, nearest first. -/
def ancestors (s : Store) (id : StatementId) : List StatementId :=
  s.climb (s.size + 1) [id] (s.ownerOf id)

def contextPath (s : Store) (context : StatementId) : List StatementId :=
  context :: s.ancestors context

def isBelow (s : Store) (id context : StatementId) : Bool :=
  id ≠ context && context ∈ s.ancestors id

def isWithin (s : Store) (id context : StatementId) : Bool := id = context || s.isBelow id context

/-- The outermost context around a statement, or the statement itself. -/
def rootOf (s : Store) (id : StatementId) : StatementId := (s.ancestors id).getLastD id

/-- Everything inside a context, owners before what they own. -/
def descendants (s : Store) (context : StatementId) : List StatementId :=
  (Walk.reach (fun id => (s.localsOf id).reverse) (s.size + 1) [context]).filter (· ≠ context)

def subtree (s : Store) (context : StatementId) : IdSet :=
  (IdSet.ofList (s.descendants context)).insert context

/-- What belongs to a statement: everything inside it if it is a context, and the statement. -/
def membersOf (s : Store) (st : Statement) : IdSet :=
  if st.isContext then s.subtree st.id else IdSet.singleton st.id

def contextsBelowByConsequent (s : Store) (context : StatementId) (term : Term) :
    List StatementId :=
  (s.contextsByConsequent term).filter fun candidate => s.isWithin candidate context

end Store

end StatementGraph
