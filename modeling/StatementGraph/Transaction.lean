import StatementGraph.Listener
import StatementGraph.LockTable
import StatementGraph.UndoLog

namespace StatementGraph

inductive HookAction where
  /-- Drop the listeners of a statement that is gone. -/
  | forget (id : StatementId)
  /-- Report a label. -/
  | report (label : String)
  /-- Let a listener hear of a change again. -/
  | deferred (label : String) (event : Event)
deriving DecidableEq

/-- A hook: what to do when the transaction commits and, if `always`, also when it aborts. -/
structure Hook where
  always : Bool
  action : HookAction
deriving DecidableEq

structure Transaction where
  id : TransactionId
  timeout : Nat
  closed : Bool := false
  statements : Table StatementId (Option Statement) := {}
  authorities : Table StatementId (Option Authority) := {}
  hooks : List Hook := []
  held : IdSet := {}
  deletions : List DeletionBatch := []
  popped : List DeletionBatch := []

namespace Transaction

def touched (t : Transaction) : Nat := t.statements.size + t.authorities.size

def keepStatement (t : Transaction) (id : StatementId) (prior : Option Statement) : Transaction :=
  if t.statements.contains id then t
  else { t with statements := t.statements.insert id prior }

def keepAuthority (t : Transaction) (id : StatementId) (prior : Option Authority) : Transaction :=
  if t.authorities.contains id then t
  else { t with authorities := t.authorities.insert id prior }

/-- Register a hook; a closed transaction takes none. -/
def addHook (t : Transaction) (hook : Hook) : Transaction :=
  if t.closed then t else { t with hooks := t.hooks ++ [hook] }

/-- Remember a batch for the undo log, unless it is empty. -/
def addDeletions (t : Transaction) (batch : DeletionBatch) : Transaction :=
  if batch.isEmpty then t else { t with deletions := t.deletions ++ [batch] }

/-- Remember a batch that was taken off the undo log. -/
def addPopped (t : Transaction) (batch : DeletionBatch) : Transaction :=
  { t with popped := t.popped ++ [batch] }

/-- The transaction once it is closed: it holds nothing any more. -/
def emptied (t : Transaction) : Transaction := { id := t.id, timeout := t.timeout, closed := true }

def describe (t : Transaction) : String :=
  "Transaction \x7b id: " ++ toString t.id.raw ++ ", closed: " ++ toString t.closed ++ ", .. \x7d"

end Transaction

end StatementGraph
