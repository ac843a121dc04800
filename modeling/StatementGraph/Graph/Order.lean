import StatementGraph.Graph.Containment

namespace StatementGraph

namespace Store

/-- The members of a list that have to come before a statement. -/
def predecessors (s : Store) (members : List StatementId) (ownersFirst : Bool)
    (id : StatementId) : List StatementId :=
  match s.get? id with
  | none => []
  | some st =>
    let needed := st.dependencies.toList.filter fun dep => dep ≠ id && dep ∈ members
    if ownersFirst then
      needed ++ (s.ancestors id).filter fun ctx => ctx ∈ members && ctx ∉ needed
    else needed

def dependencySorted (s : Store) (ids : List StatementId) (ownersFirst : Bool) :
    List StatementId :=
  Walk.order (s.predecessors ids ownersFirst) ids

end Store

end StatementGraph
