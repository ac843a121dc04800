import StatementGraph.Engine.Basic

namespace StatementGraph

namespace Engine

/-- Refuse to rename a statement under a valid signature, or give the signature up. -/
def guardSigned (t : TransactionId) (id : StatementId) (force : Bool) : Action Unit := do
  let e ← get
  match e.store.authority? id with
  | some a =>
    if a.valid then
      if force then set (e.setAuthority t id (some a.invalidate))
      else throw (.naming (.signedStatement id.raw))
    else return ()
  | none => return ()

/-- Name a statement, in place of the name it had. -/
def identify (t : TransactionId) (id : StatementId) (name : Identifier) (force : Bool) :
    Action Unit := do
  ensureOpen t
  let st ← (← get).store.require id
  lock t id
  if st.identifier = some name then return ()
  match (← get).store.lookupName st.owner name with
  | some existing =>
    if existing ≠ id then throw (.naming (.alreadyInUse name.text existing.raw))
  | none => pure ()
  guardSigned t id force
  modify fun e => e.put t { st with identifier := some name }

/-- Take the name of a statement away, and give it back. -/
def unidentify (t : TransactionId) (id : StatementId) (force : Bool) : Action Identifier := do
  ensureOpen t
  let st ← (← get).store.require id
  lock t id
  match st.identifier with
  | none => throw (.naming (.notIdentified id.raw))
  | some former =>
    guardSigned t id force
    modify fun e => e.put t { st with identifier := none }
    return former

def createAuthority (t : TransactionId) (id : StatementId) (author : String) :
    Action Authority := do
  ensureOpen t
  let _ ← (← get).store.require id
  lock t id
  if ((← get).store.authority? id).isSome then throw (.structural (.authorityExists id.raw))
  let a := Authority.unsigned id author
  modify fun e => (e.setAuthority t id (some a)).notify t (.authorityCreated a)
  return a

def requireAuthority (id : StatementId) : Action Authority := do
  match (← get).store.authority? id with
  | some a => return a
  | none => throw (.structural (.noAuthority id.raw))

def signAuthority (t : TransactionId) (id : StatementId) : Action Authority := do
  ensureOpen t
  lock t id
  let a ← requireAuthority id
  modify fun e => e.setAuthority t id (some a.sign)
  return a.sign

def deleteAuthority (t : TransactionId) (id : StatementId) : Action Authority := do
  ensureOpen t
  lock t id
  let found := (← get).store.authority? id
  modify fun e => e.setAuthority t id none
  match found with
  | some a =>
    modify fun e => e.notify t (.authorityDeleted a)
    return a
  | none => throw (.structural (.noAuthority id.raw))

end Engine

end StatementGraph
