import StatementGraph.Scope

namespace StatementGraph

namespace Store

def allProved (s : Store) (ids : IdSet) : Bool := ids.toList.all s.isProved

/-- The part of the rule that depends on the kind of a statement. -/
def kindHolds (s : Store) (st : Statement) : Bool :=
  match st.kind with
  | .assumption _ => true
  | .declaration value => s.allProved value.freeVars
  | .specialization general argument => s.isProved general && s.allProved argument.freeVars
  | .context data =>
    (match data.kind with
      | .unfolding declaration => s.isProved declaration
      | _ => true)
    && (s.solversFor st.id data.consequent).any s.isProved

/-- The proof rule of a statement against the flags of the others. -/
def holds (s : Store) (st : Statement) : Bool := s.allProved st.term.freeVars && s.kindHolds st

/-- The statements whose flag differs from the rule. -/
def inconsistent (s : Store) : List StatementId :=
  (s.statements.values.filter fun st => st.proved ≠ s.holds st).map Statement.id

end Store

end StatementGraph
