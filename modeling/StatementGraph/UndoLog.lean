import StatementGraph.Authority
import StatementGraph.Statement

namespace StatementGraph

/-- A removed statement with its assumptions and its authority, as they were. -/
structure Deleted where
  statement : Statement
  assumptions : List Statement := []
  authority : Option Authority := none

abbrev DeletionBatch := List Deleted

/-- The batches of a session, newest first, `depth` of them at most. -/
structure UndoLog where
  depth : Nat
  batches : List DeletionBatch := []

namespace UndoLog

def ofDepth (depth : Nat) : UndoLog := { depth := if depth = 0 then 1 else depth }

/-- Enter a batch; beyond the depth the oldest is dropped. -/
def push (log : UndoLog) (batch : DeletionBatch) : UndoLog :=
  { log with batches := (batch :: log.batches).take log.depth }

def pushAll (log : UndoLog) (batches : List DeletionBatch) : UndoLog := batches.foldl push log

/-- Take the newest batch off. -/
def pop? (log : UndoLog) : Option (DeletionBatch × UndoLog) :=
  match log.batches with
  | [] => none
  | batch :: rest => some (batch, { log with batches := rest })

def clear (log : UndoLog) : UndoLog := { log with batches := [] }

def size (log : UndoLog) : Nat := log.batches.length

end UndoLog

end StatementGraph
