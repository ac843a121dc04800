import StatementGraph.Mutation.Construct

namespace StatementGraph

abbrev Correspondence := Table StatementId StatementId

namespace Store

/-- The copy of a statement; an assumption has the place it had, in the copy of its context. -/
def counterpart (s : Store) (map : Correspondence) (source : StatementId) :
    Option StatementId :=
  match map.get? source with
  | some copy => some copy
  | none => do
    let st ← s.get? source
    let order ← st.order?
    let owner ← map.get? (← st.owner)
    (← s.get? owner).assumptions[order]?

def counterpartOrSelf (s : Store) (map : Correspondence) (source : StatementId) : StatementId :=
  (s.counterpart map source).getD source

/-- A term with each variable replaced by the variable of the copy, where there is one. -/
def carry (s : Store) (map : Correspondence) (term : Term) : Term :=
  term.mapVars fun source =>
    (s.counterpart map source).bind fun copy => (s.get? copy).map Statement.toVar

def carryKind (s : Store) (map : Correspondence) : ContextKind → ContextKind
  | .unfolding declaration => .unfolding (s.counterpartOrSelf map declaration)
  | _ => .nested

end Store

/-- A copy under way: the engine and the correspondence so far. -/
structure CopyState where
  engine : Engine
  map : Correspondence

abbrev Copying := ExceptT Failure (StateM CopyState)

namespace Copying

def act {α : Type} (action : Action α) : Copying α := fun state =>
  let (result, engine) := action.perform state.engine
  (result, { state with engine })

def store : Copying Store := return (← get).engine.store

def note (source copy : StatementId) : Copying Unit :=
  modify fun state => { state with map := state.map.insert source copy }

/-- Give a copy the name of its source, unless the source is excluded or the name is taken. -/
def copyName (t : TransactionId) (exclude : IdSet) (source copy : StatementId) : Copying Unit :=
  modify fun state =>
    if source ∈ exclude then state
    else
      match (state.engine.store.get? source).bind Statement.identifier,
        state.engine.store.get? copy with
      | some name, some st =>
        if (state.engine.store.lookupName st.owner name).isSome then state
        else { state with engine := state.engine.put t { st with identifier := some name } }
      | _, _ => state

def settle (t : TransactionId) (exclude : IdSet) (source copy : StatementId) : Copying Unit := do
  note source copy
  copyName t exclude source copy

/-- Copy a context without its contents. Its assumptions correspond by position. -/
def copyShell (t : TransactionId) (exclude : IdSet) (into : StatementId) (term : Term)
    (data : ContextData) : Copying StatementId := do
  let state ← get
  let s := state.engine.store
  let term := s.carry state.map term
  let kind := s.carryKind state.map data.kind
  s.validate (some into) term
  let id ← act Engine.allocate
  act (Engine.insertContext t (some into) term kind id none)
  let copied ← (← store).require id
  (data.assumptions.zip copied.assumptions).forM fun pair => settle t exclude pair.1 pair.2
  return id

/-- Copy statements into a context, where `outer` are the contexts being copied around them. -/
def copyAll (t : TransactionId) (exclude : IdSet) :
    Nat → List StatementId → StatementId → List StatementId → Copying Unit
  | 0, _, _, _ => return ()
  | depth + 1, outer, into, sources => sources.forM fun source => do
    let state ← get
    let s := state.engine.store
    match s.counterpart state.map source with
    | some copy => note source copy
    | none =>
      let st ← s.require source
      match st.kind with
      | .assumption _ => throw (.structural (.missingCounterpart source.raw))
      | .declaration value => do
        let id ← act Engine.allocate
        act (Engine.insertDeclaration t into (s.carry state.map value) id)
        settle t exclude source id
      | .specialization general argument => do
        let id ← act Engine.allocate
        act (Engine.insertSpecialization t into (s.counterpartOrSelf state.map general)
          (s.carry state.map argument) id)
        settle t exclude source id
      | .context data => do
        if source ∈ outer || s.isWithin into source then
          throw (.structural (.copyCycle source.raw))
        let id ← copyShell t exclude into st.term data
        let contents ← (← store).sortedLocals source
        settle t exclude source id
        copyAll t exclude depth (source :: outer) id (contents.filter (· ∉ data.assumptions))

def copies (map : Correspondence) (sources : List StatementId) :
    Except Failure (List StatementId) :=
  sources.mapM fun source =>
    match map.get? source with
    | some copy => .ok copy
    | none => .error (.structural (.missingCounterpart source.raw))

def copyList (t : TransactionId) (target : StatementId) (sources : List StatementId)
    (exclude : IdSet) : Copying (List StatementId) := do
  act (Engine.ensureOpen t)
  let s ← store
  let _ ← s.requireContext target
  copyAll t exclude (s.size + sources.length + 1) [] target (s.dependencySorted sources false)
  copies (← get).map sources

end Copying

/-- Copy statements into a context, in dependency order, unless the correspondence has them. -/
def Engine.copy (e : Engine) (t : TransactionId) (target : StatementId)
    (sources : List StatementId) (map : Correspondence) (exclude : IdSet) :
    Except Failure (List StatementId) × Correspondence × Engine :=
  let (result, state) := (Copying.copyList t target sources exclude).run { engine := e, map }
  (result, state.map, state.engine)

end StatementGraph
