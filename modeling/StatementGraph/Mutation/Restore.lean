import StatementGraph.Mutation.Construct

namespace StatementGraph

/-- What was rebuilt in order, what could not be, and the names that were taken meanwhile. -/
structure RestoreReport where
  restored : List StatementId := []
  failed : List (StatementId × Failure) := []
  unnamed : List (StatementId × Identifier) := []

def RestoreReport.isComplete (r : RestoreReport) : Bool := r.failed.isEmpty

/-- Why the restoration did not come back, if a statement could not be rebuilt for that. -/
def RestoreReport.breakdown? (r : RestoreReport) : Option Breakdown :=
  r.failed.findSome? fun entry => entry.2.breakdown?

namespace Engine

/-- Keep ids from being handed out again. -/
def reserve (id : StatementId) : Action Unit := do
  match (← get).store.reserve id with
  | some store => modify fun e => { e with store }
  | none => throw (.breakdown .overflow)

def standalone (st : Statement) : Failure :=
  .engine (.inconsistent (st.kind.label ++ " cannot be rebuilt on its own"))

/-- Rebuild a removed statement under its old id. -/
def rebuildDeleted (t : TransactionId) (st : Statement) : Action Unit := do
  let s := (← get).store
  match st.owner with
  | some owner =>
    if !(s.get? owner).any Statement.isContext then
      throw (.undelete (.contextMissing st.id.raw owner.raw))
  | none => pure ()
  reserve st.id
  match st.kind, st.owner with
  | .declaration value, some owner => insertDeclaration t owner value st.id
  | .specialization general argument, some owner =>
    insertSpecialization t owner general argument st.id
  | .context data, owner => do
    s.validate owner st.term
    data.assumptions.forM reserve
    insertContext t owner st.term data.kind st.id (some data.assumptions)
  | _, _ => throw (standalone st)

/-- Give a statement a name, if the name is free in its scope. Also says whether it was. -/
def restoreName (e : Engine) (t : TransactionId) (id : StatementId) (name : Identifier) :
    Bool × Engine :=
  match e.store.get? id with
  | none => (false, e)
  | some st =>
    if (e.store.lookupName st.owner name).isSome then (false, e)
    else (true, e.put t { st with identifier := some name })

def rebuildNext (t : TransactionId) (state : RestoreReport × Engine) (d : Deleted) :
    RestoreReport × Engine :=
  let (report, e) := state
  match (rebuildDeleted t d.statement).perform e with
  | (.ok (), e) => ({ report with restored := report.restored ++ [d.statement.id] }, e)
  | (.error failure, e) =>
    ({ report with failed := report.failed ++ [(d.statement.id, failure)] }, e)

def restoreNextName (t : TransactionId) (state : RestoreReport × Engine) (st : Statement) :
    RestoreReport × Engine :=
  match st.identifier with
  | none => state
  | some name =>
    let (report, e) := state
    let (free, e) := e.restoreName t st.id name
    if free then (report, e)
    else ({ report with unnamed := report.unnamed ++ [(st.id, name)] }, e)

/-- Bring back the names and the authority of one statement of a batch that was rebuilt. -/
def restoreTrappings (t : TransactionId) (state : RestoreReport × Engine) (d : Deleted) :
    RestoreReport × Engine :=
  if d.statement.id ∈ state.1.restored then
    let (report, e) := (d.statement :: d.assumptions).foldl (restoreNextName t) state
    match d.authority with
    | some a => (report, (e.setAuthority t a.statement (some a)).notify t (.authorityCreated a))
    | none => (report, e)
  else state

/-- Restore the newest batch of the undo log. -/
def undelete (t : TransactionId) : Action RestoreReport := do
  ensureOpen t
  let e ← get
  match e.undo.pop? with
  | none => throw (.undelete .nothingToUndelete)
  | some (batch, undo) =>
    let rebuilt := batch.reverse.foldl (rebuildNext t) ({}, { e with undo })
    match rebuilt.1.breakdown? with
    | some cause => throw (.breakdown cause)
    | none =>
      let (report, e) := batch.reverse.foldl (restoreTrappings t) rebuilt
      set (e.onTransaction t (·.addPopped batch))
      return report

end Engine

end StatementGraph
