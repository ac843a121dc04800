import StatementGraph.Archive
import StatementGraph.Config
import StatementGraph.Graph.Order
import StatementGraph.Transaction

namespace StatementGraph

/-- A session over a statement graph. `notices` collects what listeners and hooks report. -/
structure Engine where
  config : Config
  store : Store := {}
  locks : LockTable := {}
  listeners : Registry := {}
  undo : UndoLog
  transactions : Table TransactionId Transaction := {}
  nextTransaction : Nat := 1
  archive : Option RecordArchive := none
  notices : List Notice := []

/-- A change of an engine that may fail. What was changed before the failure stays changed. -/
abbrev Action := ExceptT Failure (StateM Engine)

def Action.perform {α : Type} (action : Action α) (e : Engine) : Except Failure α × Engine :=
  action.run e

namespace Engine

def onTransaction (e : Engine) (t : TransactionId) (f : Transaction → Transaction) : Engine :=
  match e.transactions.get? t with
  | some tx => { e with transactions := e.transactions.insert t (f tx) }
  | none => e

def isOpen (e : Engine) (t : TransactionId) : Bool :=
  (e.transactions.get? t).any fun tx => !tx.closed

def report (e : Engine) (notice : Notice) : Engine := { e with notices := e.notices ++ [notice] }

def takeNotices (e : Engine) : List Notice × Engine := (e.notices, { e with notices := [] })

/-- Let one listener hear of a change made in a transaction. -/
def hear (t : TransactionId) (event : Event) (e : Engine) (listener : Listener) : Engine :=
  let e := e.report (.event listener.label event)
  if listener.defer && event.isStructural then
    e.onTransaction t (·.addHook ⟨false, .deferred listener.label event⟩)
  else e

/-- Let everyone concerned hear of a change made in a transaction. -/
def notify (e : Engine) (t : TransactionId) (event : Event) : Engine :=
  (e.listeners.hearers event).foldl (hear t event) e

def keepStatement (e : Engine) (t : TransactionId) (id : StatementId) : Engine :=
  e.onTransaction t (·.keepStatement id (e.store.get? id))

def keepAuthority (e : Engine) (t : TransactionId) (id : StatementId) : Engine :=
  e.onTransaction t (·.keepAuthority id (e.store.authority? id))

def onStore (e : Engine) (f : Store → Store) : Engine := { e with store := f e.store }

def put (e : Engine) (t : TransactionId) (st : Statement) : Engine :=
  (e.keepStatement t st.id).onStore (·.write st)

def remove (e : Engine) (t : TransactionId) (id : StatementId) : Engine :=
  (e.keepStatement t id).onStore (·.erase id)

def setProved (e : Engine) (t : TransactionId) (id : StatementId) (proved : Bool) : Engine :=
  (e.keepStatement t id).onStore (·.setProved id proved)

/-- Give a statement an authority, or take it away. -/
def setAuthority (e : Engine) (t : TransactionId) (id : StatementId) (a : Option Authority) :
    Engine :=
  (e.keepAuthority t id).onStore (·.setAuthority id a)

def closedFailure (t : TransactionId) : Failure := .store (.transactionClosed t.raw)

def ensureOpen (t : TransactionId) : Action Unit := do
  if (← get).isOpen t then return () else throw (closedFailure t)

def allocate : Action StatementId := do
  let e ← get
  let (result, store) := e.store.allocate
  set { e with store }
  match result with
  | .ok id => return id
  | .error error => throw (.engine error)

/-- A number of fresh statement ids. -/
def allocateMany : Nat → Action (List StatementId)
  | 0 => return []
  | n + 1 => do
    let id ← allocate
    let ids ← allocateMany n
    return id :: ids

/-- Lock a statement until the transaction closes. -/
def lock (t : TransactionId) (id : StatementId) : Action Unit := do
  ensureOpen t
  let e ← get
  match e.locks.acquire id t with
  | .ok locks =>
    set ({ e with locks }.onTransaction t fun tx => { tx with held := tx.held.insert id })
  | .error error => throw (.store error)

/-- Lock statements one after the other, up to the first that is refused. -/
def lockAll (t : TransactionId) (ids : IdSet) : Action Unit := ids.toList.forM (lock t)

end Engine

end StatementGraph
