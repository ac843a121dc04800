import StatementGraph.Engine.Propagation

namespace StatementGraph

namespace Store

def declarationRecord (s : Store) (context : StatementId) (value : Term) (id : StatementId) :
    Except Failure Statement := do
  s.validate (some context) value
  match value.typeOf with
  | .error cause => throw (.structural (.untypedDeclaration value.text cause))
  | .ok term =>
    return {
      id
      owner := some context
      term
      proved := false
      dependencies := term.freeVars.union value.freeVars
      identifier := none
      kind := .declaration value }

def specializationRecord (s : Store) (context general : StatementId) (argument : Term)
    (id : StatementId) : Except Failure Statement := do
  let st ← s.require general
  if !s.isVisible general context then
    throw (.structural (.unboundVariable general.raw context.text))
  s.validate (some context) argument
  match st.term.compose argument with
  | .error cause => throw (.term cause)
  | .ok term =>
    return {
      id
      owner := some context
      term
      proved := false
      dependencies := (term.freeVars.insert general).union argument.freeVars
      identifier := none
      kind := .specialization general argument }

/-- What a new context depends on beside its variables, and the term that it reads. -/
def unfold (s : Store) (owner : Option StatementId) (term : Term) :
    ContextKind → Except Failure (IdSet × Term)
  | .unfolding declaration => do
    let st ← s.require declaration
    match st.kind with
    | .declaration value =>
      if owner.any fun ctx => s.isVisible declaration ctx then
        return (term.freeVars.insert declaration, term.replaceVar declaration value)
      else throw (.structural (.unboundVariable declaration.raw (placeText owner)))
    | _ => throw (.structural (.notADeclaration declaration.raw))
  | _ => return (term.freeVars, term)

end Store

def contextRecords (owner : Option StatementId) (term : Term) (kind : ContextKind)
    (id : StatementId) (dependencies : IdSet) (inner : Term) (ids : List StatementId) :
    Statement × List Statement :=
  let (assumptions, consequent) := inner.unproject.peel ids
  let context : Statement :=
    { id
      owner
      term
      proved := false
      dependencies
      identifier := none
      kind := .context { kind, assumptions := assumptions.map Prod.fst, consequent } }
  let assumption (entry : (StatementId × Term) × Nat) : Statement :=
    { id := entry.1.1
      owner := some id
      term := entry.1.2
      proved := false
      dependencies := entry.1.2.freeVars
      identifier := none
      kind := .assumption entry.2 }
  (context, assumptions.zipIdx.map assumption)

namespace Engine

def addRecord (t : TransactionId) (e : Engine) (st : Statement) : Engine :=
  (e.put t st).notify t (.added st.id st.owner st.proved)

/-- Write a new record, announce it and derive its flag. -/
def enter (e : Engine) (t : TransactionId) (st : Statement) : Propagation :=
  (e.addRecord t st).propagation ⟨true, true⟩ t [st.id]

/-- Write a new context with its assumptions and derive their flags, the assumptions first. -/
def enterContext (e : Engine) (t : TransactionId) (context : Statement)
    (assumptions : List Statement) : Propagation :=
  let e := (context :: assumptions).foldl (addRecord t) e
  let inside := e.propagation ⟨false, true⟩ t (assumptions.map Statement.id)
  let outside := inside.engine.propagation ⟨true, true⟩ t [context.id]
  { outside with queue := inside.queue ++ outside.queue }

def insertDeclaration (t : TransactionId) (context : StatementId) (value : Term)
    (id : StatementId) : Action Unit := do
  let st ← (← get).store.declarationRecord context value id
  await ((← get).enter t st)

def insertSpecialization (t : TransactionId) (context general : StatementId) (argument : Term)
    (id : StatementId) : Action Unit := do
  let st ← (← get).store.specializationRecord context general argument id
  await ((← get).enter t st)

/-- The ids of the assumptions of a new context: fresh ones, or the ones it had before. -/
def assumptionIds (id : StatementId) (count : Nat) :
    Option (List StatementId) → Action (List StatementId)
  | none => allocateMany count
  | some ids =>
    if ids.length < count then
      throw (.engine (.inconsistent ("context " ++ id.text ++ " lost assumption " ++
        toString ids.length ++ " on restore")))
    else return ids

/-- Make a context with a given id, whose assumptions have fresh ids or given ones. -/
def insertContext (t : TransactionId) (owner : Option StatementId) (term : Term)
    (kind : ContextKind) (id : StatementId) (given : Option (List StatementId)) : Action Unit := do
  let (dependencies, inner) ← (← get).store.unfold owner term kind
  let ids ← assumptionIds id inner.unproject.arity given
  let (context, assumptions) := contextRecords owner term kind id dependencies inner ids
  await ((← get).enterContext t context assumptions)

/-- Make a root context. Its term mentions no statements. -/
def createRoot (t : TransactionId) (term : Term) : Action StatementId := do
  ensureOpen t
  (← get).store.validate none term
  let id ← allocate
  insertContext t none term .root id none
  return id

def declare (t : TransactionId) (context : StatementId) (value : Term) : Action StatementId := do
  ensureOpen t
  let _ ← (← get).store.requireContext context
  let id ← allocate
  insertDeclaration t context value id
  return id

/-- Compose a visible statement with an argument. -/
def specialize (t : TransactionId) (context general : StatementId) (argument : Term) :
    Action StatementId := do
  ensureOpen t
  let _ ← (← get).store.requireContext context
  let id ← allocate
  insertSpecialization t context general argument id
  return id

/-- Open a context of a given kind inside another. -/
def openContext (t : TransactionId) (context : StatementId) (term : Term) (kind : ContextKind) :
    Action StatementId := do
  ensureOpen t
  let _ ← (← get).store.requireContext context
  (← get).store.validate (some context) term
  let id ← allocate
  insertContext t (some context) term kind id none
  return id

def openNested (t : TransactionId) (context : StatementId) (term : Term) : Action StatementId :=
  openContext t context term .nested

def openUnfolding (t : TransactionId) (context : StatementId) (term : Term)
    (declaration : StatementId) : Action StatementId :=
  openContext t context term (.unfolding declaration)

end Engine

end StatementGraph
