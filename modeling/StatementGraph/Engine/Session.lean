import StatementGraph.Engine.Basic

namespace StatementGraph

namespace Store

/-- Take a record in, and never hand out its id and its parameters again. -/
def takeIn (s : Store) (st : Statement) : Except Failure Store :=
  match s.reserve st.id with
  | some s => if .last ∈ st.params then .error (.breakdown .overflow) else .ok (s.write st)
  | none => .error (.breakdown .overflow)

def ofArchive (a : RecordArchive) : Except Failure Store := do
  let store ← a.statements.values.foldlM (fun s cell => do s.takeIn (← cell.read)) {}
  let authorities ← a.authorities.values.mapM Cell.read
  return authorities.foldl (fun s a => s.setAuthority a.statement (some a)) store

end Store

namespace Engine

def inMemory (config : Config) : Engine := { config, undo := .ofDepth config.undoDepth }

/-- Open an engine. With a data directory, its records come from the archive there. -/
def create (config : Config) (medium : Medium) : Except Failure Engine := do
  config.validate
  match config.dataDir with
  | none => return inMemory config
  | some _ =>
    match medium.mount with
    | .error error => throw (.store error)
    | .ok archive =>
      match Store.ofArchive archive with
      | .error failure => throw failure
      | .ok store => return { inMemory config with store, archive := some archive }

def isDurable (e : Engine) : Bool := e.archive.isSome

/-- Begin a transaction, with the engine's own timeout if none is given. -/
def begin (e : Engine) (timeout : Option Nat) : TransactionId × Engine :=
  let id : TransactionId := ⟨e.nextTransaction⟩
  let tx : Transaction := { id, timeout := timeout.getD e.config.lockTimeout }
  (id, { e with
    nextTransaction := e.nextTransaction + 1
    transactions := e.transactions.insert id tx })

def runHook (committed : Bool) (e : Engine) (hook : Hook) : Engine :=
  if committed || hook.always then
    match hook.action with
    | .forget id => { e with listeners := e.listeners.forget id }
    | .report label => e.report (.hook label)
    | .deferred label event => e.report (.deferred label event)
  else e

/-- Free the locks of a transaction and run its hooks. -/
def finish (e : Engine) (tx : Transaction) (committed : Bool) : Engine :=
  tx.hooks.foldl (runHook committed) { e with locks := e.locks.release tx.id tx.held }

/-- What a commit writes: the records the transaction touched, as they are now. -/
def writes (e : Engine) (tx : Transaction) : ArchiveBatch (Cell Statement) (Cell Authority) :=
  { statements := tx.statements.keys.map fun id => (id.raw, (e.store.get? id).map .intact)
    authorities := tx.authorities.keys.map fun id =>
      (id.raw, (e.store.authority? id).map .intact) }

/-- Bring back the records a transaction touched and the batches it took off the undo log. -/
def rollback (e : Engine) (tx : Transaction) : Engine :=
  let store := tx.statements.entries.foldl (fun s entry => s.restore entry.1 entry.2) e.store
  let store := tx.authorities.entries.foldl (fun s entry => s.setAuthority entry.1 entry.2) store
  { e with store, undo := e.undo.pushAll tx.popped.reverse }

/-- Commit. The archive takes every write here; if one failed, this would do what an abort does. -/
def commitWith (e : Engine) (tx : Transaction) : Engine :=
  let e := e.onTransaction tx.id Transaction.emptied
  let e : Engine := { e with
    archive := e.archive.map fun a => a.apply (e.writes tx)
    undo := e.undo.pushAll tx.deletions }
  e.finish tx true

def abortWith (e : Engine) (tx : Transaction) : Engine :=
  let e := e.onTransaction tx.id Transaction.emptied
  (e.rollback tx).finish tx false

def commit (t : TransactionId) : Action Unit := do
  let e ← get
  match e.transactions.get? t with
  | some tx => if tx.closed then throw (closedFailure t) else set (e.commitWith tx)
  | none => throw (closedFailure t)

def abort (e : Engine) (t : TransactionId) : Engine :=
  match e.transactions.get? t with
  | some tx => if tx.closed then e else e.abortWith tx
  | none => e

/-- Register a hook that reports a label when the transaction commits or, if `always`, closes. -/
def addHook (e : Engine) (t : TransactionId) (always : Bool) (label : String) : Engine :=
  e.onTransaction t (·.addHook ⟨always, .report label⟩)

def listen (e : Engine) (subject : Option StatementId) (listener : Listener) :
    ListenerId × Engine :=
  let (handle, listeners) := e.listeners.add subject listener
  (handle, { e with listeners })

/-- Remove a listener. Also says whether it was registered. -/
def unlisten (e : Engine) (handle : ListenerId) : Bool × Engine :=
  let (found, listeners) := e.listeners.remove handle
  (found, { e with listeners })

/-- End the session: no listeners and nothing to undo. The store stays readable. -/
def close (e : Engine) : Engine :=
  { e with listeners := e.listeners.clear, undo := e.undo.clear }

/-- Take the newest batch off the undo log, outside any transaction. -/
def popUndo (e : Engine) : Option DeletionBatch × Engine :=
  match e.undo.pop? with
  | some (batch, undo) => (some batch, { e with undo })
  | none => (none, e)

/-- Enter a batch into the undo log, outside any transaction. -/
def pushUndo (e : Engine) (batch : DeletionBatch) : Engine := { e with undo := e.undo.push batch }

end Engine

structure Info where
  statements : Nat := 0
  proved : Nat := 0
  roots : Nat := 0
  undoBatches : Nat := 0
  listeners : Nat := 0
  dataDir : Option String := none

def Info.text (i : Info) : String :=
  "proofweb engine\n" ++
  "  statements:   " ++ toString i.statements ++ "\n" ++
  "  proved:       " ++ toString i.proved ++ "\n" ++
  "  roots:        " ++ toString i.roots ++ "\n" ++
  "  undo batches: " ++ toString i.undoBatches ++ "\n" ++
  "  listeners:    " ++ toString i.listeners ++ "\n" ++
  "  persistence:  " ++ i.dataDir.getD "memory-only"

def Engine.info (e : Engine) : Info :=
  { statements := e.store.size
    proved := (e.store.statements.values.filter Statement.proved).length
    roots := e.store.roots.length
    undoBatches := e.undo.size
    listeners := e.listeners.size
    dataDir := e.config.dataDir }

def Config.describe (c : Config) : String :=
  let dir := match c.dataDir with
    | some dir => "Some(" ++ Text.quoted dir ++ ")"
    | none => "None"
  "EngineConfig \x7b data_dir: " ++ dir ++ ", lock_timeout_ms: " ++ toString c.lockTimeout ++
    ", undo_depth: " ++ toString c.undoDepth ++ " \x7d"

def Engine.describe (e : Engine) : String :=
  "Engine \x7b config: " ++ e.config.describe ++ ", statements: " ++ toString e.store.size ++
    ", .. \x7d"

def Registry.describe (r : Registry) : String :=
  "ListenerRegistry \x7b len: " ++ toString r.size ++ " \x7d"

end StatementGraph
