import StatementGraph.Id

namespace StatementGraph

/-- The authorship of one statement. When it was made is left out, and of the time at which it was
signed only `signed` is kept; `valid` says that the signature still holds. -/
structure Authority where
  statement : StatementId
  author : String
  valid : Bool
  signed : Bool
deriving DecidableEq

namespace Authority

def unsigned (statement : StatementId) (author : String) : Authority :=
  ⟨statement, author, false, false⟩

def sign (a : Authority) : Authority := { a with valid := true, signed := true }

def invalidate (a : Authority) : Authority := { a with valid := false }

end Authority

end StatementGraph
