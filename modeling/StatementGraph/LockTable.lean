import StatementGraph.Failure
import StatementGraph.Table

namespace StatementGraph

structure TransactionId where
  raw : Nat
deriving DecidableEq

instance : Ranked TransactionId :=
  ⟨TransactionId.raw, fun {a b} h => by cases a; cases b; cases h; rfl⟩

/-- The transactions that hold locks, by the statement that is locked. -/
structure LockTable where
  owners : Table StatementId TransactionId := {}

namespace LockTable

def owner? (l : LockTable) (id : StatementId) : Option TransactionId := l.owners.get? id

/-- Lock a statement for a transaction. Locking it again is nothing new. -/
def acquire (l : LockTable) (id : StatementId) (t : TransactionId) : Except StoreError LockTable :=
  match l.owner? id with
  | none => .ok ⟨l.owners.insert id t⟩
  | some holder => if holder = t then .ok l else .error (.lockTimeout id.raw)

def releaseOne (t : TransactionId) (l : LockTable) (id : StatementId) : LockTable :=
  if l.owner? id = some t then ⟨l.owners.erase id⟩ else l

def release (l : LockTable) (t : TransactionId) (ids : IdSet) : LockTable :=
  ids.toList.foldl (releaseOne t) l

end LockTable

end StatementGraph
