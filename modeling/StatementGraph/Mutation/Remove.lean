import StatementGraph.Engine.Propagation

namespace StatementGraph

namespace Store

def outsideDependents (s : Store) (members : IdSet) : IdSet :=
  IdSet.ofList ((members.toList.flatMap s.dependentsOf).filter (· ∉ members))

/-- A statement that may be removed from a context: one of its own that is not an assumption. -/
def requireRemovable (s : Store) (context id : StatementId) : Except Failure Statement := do
  let st ← s.require id
  if st.isAssumption then throw (.structural (.cannotDeleteAssumption id.raw))
  if st.owner ≠ some context then throw (.structural (.notInContext id.raw context.raw))
  return st

def removalOf (s : Store) (context : StatementId) (ids : List StatementId) :
    Except Failure IdSet :=
  ids.foldlM (fun removal id => do
    let st ← s.requireRemovable context id
    return removal.union (s.membersOf st)) IdSet.empty

def isBlockedBy (s : Store) (blocking : IdSet) (id : StatementId) : Bool :=
  (s.get? id).any fun st =>
    (s.outsideDependents (s.membersOf st)).toList.any (· ∈ blocking)

/-- What has to be removed to get rid of a statement: of an assumption, its context. -/
def unitOf (s : Store) (id : StatementId) : Option StatementId :=
  (s.get? id).bind fun st => if st.isAssumption then st.owner else some id

def unitsOn (s : Store) (unit : StatementId) : List StatementId :=
  match s.get? unit with
  | none => []
  | some st => (s.outsideDependents (s.membersOf st)).toList.filterMap s.unitOf

def cascadeOf (s : Store) (target : StatementId) : IdSet :=
  (Walk.reach s.unitsOn (s.mentioned.length + 1) [target]).foldl (fun planned unit =>
    match s.get? unit with
    | some st => planned.union (s.membersOf st)
    | none => planned) IdSet.empty

/-- What goes one by one with a statement; assumptions go with their contexts. -/
def removalOrder (s : Store) (top : StatementId) : List StatementId :=
  let inside := (s.descendants top).filter fun id => (s.get? id).any fun st => !st.isAssumption
  (s.dependencySorted (inside ++ [top]) true).reverse

end Store

/-- A removal under way: the engine, and what was removed so far with all that is kept of it. -/
structure Removal where
  engine : Engine
  batch : DeletionBatch := []
  gone : List Statement := []

namespace Removal

def removed (r : Removal) : List StatementId := r.gone.map Statement.id

/-- Remove one record with its authority; its listeners are dropped when this is committed. -/
def erase (t : TransactionId) (e : Engine) (id : StatementId) : Option Statement × Engine :=
  match e.store.get? id with
  | none => (none, e.remove t id)
  | some st =>
    let e := e.remove t id
    let authority := e.store.authority? id
    let e := e.setAuthority t id none
    let e := match authority with
      | some a => e.notify t (.authorityDeleted a)
      | none => e
    let e := e.notify t (.deleted id st.owner st.identifier)
    (some st, e.onTransaction t (·.addHook ⟨false, .forget id⟩))

def eraseAssumptions (t : TransactionId) :
    List StatementId → Engine → List Statement × Engine
  | [], e => ([], e)
  | id :: rest, e =>
    let (st?, e) := erase t e id
    let (others, e) := eraseAssumptions t rest e
    (st?.toList ++ others, e)

def removeOne (t : TransactionId) (r : Removal) (id : StatementId) : Removal :=
  match r.engine.store.get? id with
  | none => r
  | some st =>
    let authority := r.engine.store.authority? id
    let (assumptions, e) := eraseAssumptions t st.assumptions r.engine
    let (erased, e) := erase t e id
    if erased.isSome then
      { engine := e
        batch := r.batch ++ [{ statement := st, assumptions, authority }]
        gone := r.gone ++ assumptions ++ [st] }
    else { r with engine := e, gone := r.gone ++ assumptions }

def removeTree (t : TransactionId) (r : Removal) (top : StatementId) : Removal :=
  (r.engine.store.removalOrder top).foldl (removeOne t) r

/-- Remove units, each after the units that depend on it, but for those in a circle. -/
def cascade (t : TransactionId) : Nat → List StatementId → List StatementId → Removal → Removal
  | 0, _, _, r => r
  | _ + 1, _, [], r => r
  | steps + 1, visited, top :: stack, r =>
    if r.engine.store.contains top then
      match (r.engine.store.unitsOn top).find? (· ∉ visited) with
      | some unit => cascade t steps (unit :: visited) (unit :: top :: stack) r
      | none => cascade t steps visited stack (r.removeTree t top)
    else cascade t steps visited stack r

/-- The contexts that removed statements may have been solving. -/
def solved (r : Removal) : IdSet :=
  r.gone.foldl (fun seeds st =>
    match st.proved, st.owner with
    | true, some owner =>
      if r.engine.store.contains owner then
        seeds.insertAll (r.engine.store.contextsBelowByConsequent owner st.term)
      else seeds
    | _, _ => seeds) IdSet.empty

/-- Derive the flags of the contexts that removed statements may have been solving. -/
def recheck (t : TransactionId) (r : Removal) : Removal :=
  if r.solved.isEmpty then r else { r with engine := (r.engine.rederive t r.solved.toList).2 }

def record (t : TransactionId) (r : Removal) : Engine :=
  r.engine.onTransaction t (·.addDeletions r.batch)

end Removal

namespace Engine

def carryOut (t : TransactionId) (work : Removal → Removal) : Action (List StatementId) := do
  let r := work { engine := ← get }
  set (r.record t)
  return r.removed

/-- Remove statements of a context together, on which nothing else may depend. -/
def removeStatements (t : TransactionId) (context : StatementId) (ids : List StatementId) :
    Action (List StatementId) := do
  ensureOpen t
  let s := (← get).store
  let _ ← s.requireContext context
  let removal ← s.removalOf context ids
  let blocking := s.outsideDependents removal
  if !blocking.isEmpty then
    let blocked := (ids.find? (s.isBlockedBy blocking)).getD context
    throw (.structural (.hasDependents blocked.raw blocking.size))
  lockAll t removal
  carryOut t fun r =>
    ((s.dependencySorted ids false).reverse.foldl (Removal.removeTree t) r).recheck t

def removeStatement (t : TransactionId) (context id : StatementId) : Action (List StatementId) :=
  removeStatements t context [id]

def removeRoot (t : TransactionId) (root : StatementId) : Action (List StatementId) := do
  ensureOpen t
  let s := (← get).store
  let st ← s.requireContext root
  match st.owner with
  | some owner => throw (.structural (.notInContext root.raw owner.raw))
  | none => pure ()
  let removal := s.membersOf st
  let blocking := s.outsideDependents removal
  if !blocking.isEmpty then throw (.structural (.hasDependents root.raw blocking.size))
  lockAll t removal
  carryOut t fun r => r.removeTree t root

/-- Remove a statement after everything that depends on it. -/
def removeCascade (t : TransactionId) (context id : StatementId) : Action (List StatementId) := do
  ensureOpen t
  let s := (← get).store
  let _ ← s.requireContext context
  let st ← s.require id
  if st.owner ≠ some context then throw (.structural (.notInContext id.raw context.raw))
  let target := if st.isAssumption then context else id
  lockAll t (s.cascadeOf target)
  carryOut t fun r =>
    (Removal.cascade t (2 * s.mentioned.length + 2) [target] [target] r).recheck t

end Engine

end StatementGraph
