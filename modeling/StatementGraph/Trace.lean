import StatementGraph.Scope

namespace StatementGraph

namespace Store

def lighter (best : Option Statement) (candidate : Statement) : Option Statement :=
  match best with
  | none => some candidate
  | some chosen => if candidate.weight < chosen.weight then some candidate else some chosen

/-- The proved solver of a context that adds least to a written proof, the first of several. -/
def preferredSolver (s : Store) (context : StatementId) :
    Except Failure (Option StatementId) := do
  let candidates := (← s.solvers context).filterMap s.get?
  return ((candidates.filter Statement.proved).foldl lighter none).map Statement.id

/-- What a member of a set rests on, inside the set or not. -/
def groundsOf (s : Store) (member : StatementId) : Except Failure (List StatementId) :=
  match s.get? member with
  | none => .ok []
  | some st => do
    let solver ← if st.isContext then s.preferredSolver member else .ok none
    return st.dependencies.toList ++ solver.toList

/-- What the proof of a statement rests on directly, outside the statement. -/
def proofDependencies (s : Store) (id : StatementId) : Except Failure IdSet := do
  let st ← s.require id
  let members := s.membersOf st
  let grounds ← members.toList.mapM s.groundsOf
  return IdSet.ofList (grounds.flatten.filter (· ∉ members))

/-- The proof dependencies of a statement as the neighbours of a walk. -/
def restsOn (s : Store) (id : StatementId) : List StatementId :=
  match s.proofDependencies id with
  | .ok found => found.toList
  | .error _ => []

/-- Everything the proof of a statement rests on, in dependency order, and last the statement. -/
def trace (s : Store) (id : StatementId) : Except Failure (List StatementId) := do
  let _ ← s.require id
  let closure := IdSet.ofList (Walk.reach s.restsOn (s.mentioned.length + 1) [id])
  return (s.dependencySorted closure.toList false).filter (· ≠ id) ++ [id]

end Store

end StatementGraph
