import StatementGraph.Table

namespace StatementGraph

structure ParamId where
  raw : Nat
deriving DecidableEq

def ParamId.last : ParamId := ⟨UInt64.size - 1⟩

/-- A term. A function whose body is a type is also a function type. -/
inductive Term where
  /-- The type of propositions, which has no type itself. -/
  | tau
  /-- A closed primitive proposition. -/
  | atom (name : String)
  /-- The variable of a statement, with the statement's term as its type. -/
  | var (id : StatementId) (type : Term)
  /-- An occurrence of a parameter, with its type. -/
  | param (id : ParamId) (type : Term)
  /-- Abstraction over a parameter. -/
  | function (binder : ParamId) (domain body : Term)
  /-- Application, not checked. -/
  | apply (head arg : Term)
  /-- A projected function. -/
  | projection (inner : Term)
  /-- The type of a term, not yet computed. -/
  | cast (inner : Term)
deriving Inhabited, DecidableEq

namespace Term

/-- The variables in a term with the types they carry, from left to right. -/
def occurrences : Term → List (StatementId × Term)
  | tau => []
  | atom _ => []
  | var id type => [(id, type)]
  | param _ type => type.occurrences
  | function _ domain body => domain.occurrences ++ body.occurrences
  | apply head arg => head.occurrences ++ arg.occurrences
  | projection inner => inner.occurrences
  | cast inner => inner.occurrences

def freeVars (t : Term) : IdSet := IdSet.ofList (t.occurrences.map Prod.fst)

def castFree : Term → Bool
  | tau => true
  | atom _ => true
  | var _ _ => true
  | param _ type => type.castFree
  | function _ domain body => domain.castFree && body.castFree
  | apply head arg => head.castFree && arg.castFree
  | projection inner => inner.castFree
  | cast _ => false

/-- The number of nodes, without the types of variables. -/
def size : Term → Nat
  | tau => 1
  | atom _ => 1
  | var _ _ => 1
  | param _ type => 1 + type.size
  | function _ domain body => 1 + domain.size + body.size
  | apply head arg => 1 + head.size + arg.size
  | projection inner => 1 + inner.size
  | cast inner => 1 + inner.size

/-- The number of nodes, with the types of variables. -/
def fullSize : Term → Nat
  | tau => 1
  | atom _ => 1
  | var _ type => 1 + type.fullSize
  | param _ type => 1 + type.fullSize
  | function _ domain body => 1 + domain.fullSize + body.fullSize
  | apply head arg => 1 + head.fullSize + arg.fullSize
  | projection inner => 1 + inner.fullSize
  | cast inner => 1 + inner.fullSize

/-- All parameters of a term, bound or not, with those in the types that it carries. -/
def params : Term → List ParamId
  | tau => []
  | atom _ => []
  | var _ type => type.params
  | param id type => id :: type.params
  | function binder domain body => binder :: (domain.params ++ body.params)
  | apply head arg => head.params ++ arg.params
  | projection inner => inner.params
  | cast inner => inner.params

/-- Whether a parameter occurs in a term outside the functions that bind it. -/
def mentions (p : ParamId) : Term → Bool
  | tau => false
  | atom _ => false
  | var _ _ => false
  | param id type => id = p || type.mentions p
  | function binder domain body => domain.mentions p || (binder ≠ p && body.mentions p)
  | apply head arg => head.mentions p || arg.mentions p
  | projection inner => inner.mentions p
  | cast inner => inner.mentions p

def isFunction : Term → Bool
  | function _ _ _ => true
  | _ => false

/-- The text of a term. A binder is named only if its body mentions it. -/
def text : Term → String
  | tau => "Tau"
  | atom name => name
  | var id _ => "#" ++ toString id.raw
  | param id _ => "p" ++ toString id.raw
  | function binder domain body =>
    if body.mentions binder then
      "(p" ++ toString binder.raw ++ " : " ++ domain.text ++ ") -> " ++ body.text
    else if domain.isFunction then "(" ++ domain.text ++ ") -> " ++ body.text
    else domain.text ++ " -> " ++ body.text
  | apply head arg => "(" ++ head.text ++ " " ++ arg.text ++ ")"
  | projection inner => "proj(" ++ inner.text ++ ")"
  | cast inner => "type(" ++ inner.text ++ ")"

/-- The size in bincode: four bytes for a form, eight for an id or a length, and the names. -/
def weight : Term → Nat
  | tau => 4
  | atom name => 12 + name.utf8ByteSize
  | var _ type => 12 + type.weight
  | param _ type => 12 + type.weight
  | function _ domain body => 12 + domain.weight + body.weight
  | apply head arg => 4 + head.weight + arg.weight
  | projection inner => 4 + inner.weight
  | cast inner => 4 + inner.weight

end Term

end StatementGraph
