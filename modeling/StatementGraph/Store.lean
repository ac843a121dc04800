import StatementGraph.Authority
import StatementGraph.Failure
import StatementGraph.Index

namespace StatementGraph

structure Store where
  statements : Table StatementId Statement := {}
  authorities : Table StatementId Authority := {}
  index : Index := .empty
  allocator : Allocator := .initial

namespace Store

def get? (s : Store) (id : StatementId) : Option Statement := s.statements.get? id

def contains (s : Store) (id : StatementId) : Bool := s.statements.contains id

def ids (s : Store) : List StatementId := s.statements.keys

def size (s : Store) : Nat := s.statements.size

/-- Write a record, over the one with the same id. -/
def write (s : Store) (st : Statement) : Store :=
  let index := match s.get? st.id with
    | some old => s.index.remove old
    | none => s.index
  { s with statements := s.statements.insert st.id st, index := index.insert st }

def erase (s : Store) (id : StatementId) : Store :=
  match s.get? id with
  | some old => { s with statements := s.statements.erase id, index := s.index.remove old }
  | none => s

/-- Change the flag of a record. No index looks at flags. -/
def setProved (s : Store) (id : StatementId) (proved : Bool) : Store :=
  match s.get? id with
  | some st => { s with statements := s.statements.insert id { st with proved } }
  | none => s

/-- Bring a record back to what it was, or to not being there. -/
def restore (s : Store) (id : StatementId) : Option Statement → Store
  | some st => s.write st
  | none => s.erase id

def authority? (s : Store) (id : StatementId) : Option Authority := s.authorities.get? id

def setAuthority (s : Store) (id : StatementId) (a : Option Authority) : Store :=
  { s with authorities := s.authorities.set id a }

/-- Never hand out an id or anything below it again. -/
def reserve (s : Store) (id : StatementId) : Option Store :=
  (s.allocator.reserve id).map fun allocator => { s with allocator }

/-- Hand out a fresh id. The counter moves on also when there is none. -/
def allocate (s : Store) : Except EngineError StatementId × Store :=
  let (id?, allocator) := s.allocator.take
  match id? with
  | some id => (.ok id, { s with allocator })
  | none => (.error (.inconsistent "statement id space exhausted"), { s with allocator })

def ownerOf (s : Store) (id : StatementId) : Option StatementId := (s.get? id).bind Statement.owner

def isProved (s : Store) (id : StatementId) : Bool := (s.get? id).any Statement.proved

def variableOf (s : Store) (id : StatementId) : Term :=
  ((s.get? id).map Statement.toVar).getD (.var id .tau)

def localsOf (s : Store) (context : StatementId) : List StatementId := s.index.locals.ids context

def dependentsOf (s : Store) (id : StatementId) : List StatementId := s.index.dependents.ids id

/-- The statements of a context that assert a term, ascending. -/
def localsByTerm (s : Store) (context : StatementId) (term : Term) : List StatementId :=
  s.index.byTerm.ids (context, term)

def contextsByConsequent (s : Store) (consequent : Term) : List StatementId :=
  s.index.byConsequent.ids consequent

def specializationsOf (s : Store) (general : StatementId) : List StatementId :=
  s.index.byGeneral.ids general

def roots (s : Store) : List StatementId := s.index.roots.toList

def lookupName (s : Store) (scope : NameScope) (name : Identifier) : Option StatementId :=
  s.index.lookupName scope name

def namesIn (s : Store) (scope : NameScope) : List (Identifier × StatementId) :=
  s.index.namesIn scope

def require (s : Store) (id : StatementId) : Except Failure Statement :=
  match s.get? id with
  | some st => .ok st
  | none => .error (.structural (.notFound id.raw))

def requireContext (s : Store) (id : StatementId) : Except Failure Statement := do
  let st ← s.require id
  if st.isContext then return st else .error (.structural (.notAContext id.raw))

/-- Every id that some record mentions; a walk meets no others but those it starts from. -/
def mentioned (s : Store) : List StatementId :=
  s.statements.values.flatMap fun st => st.id :: (st.owner.toList ++ st.dependencies.toList)

end Store

end StatementGraph
