import StatementGraph.Statement

namespace StatementGraph

/-- The pairs of a key and an id that an index holds. -/
abbrev Postings (κ : Type) := List (κ × StatementId)

namespace Postings

variable {κ : Type} [BEq κ]

def file (p : Postings κ) (key : κ) (id : StatementId) : Postings κ :=
  if p.any fun e => e.1 == key && e.2 = id then p else (key, id) :: p

def unfile (p : Postings κ) (key : κ) (id : StatementId) : Postings κ :=
  p.filter fun e => !(e.1 == key && e.2 = id)

def ids (p : Postings κ) (key : κ) : List StatementId :=
  (IdSet.ofList ((p.filter fun e => e.1 == key).map Prod.snd)).toList

end Postings

/-- The place where names are unique: a context, or the scope that root contexts share. -/
abbrev NameScope := Option StatementId

structure Index where
  locals : Postings StatementId := []
  dependents : Postings StatementId := []
  byTerm : Postings (StatementId × Term) := []
  byConsequent : Postings Term := []
  byGeneral : Postings StatementId := []
  names : List ((NameScope × Identifier) × StatementId) := []
  roots : IdSet := {}

namespace Index

def empty : Index := {}

/-- File a statement under its owner and its term, or among the roots. -/
def insertPlace (i : Index) (st : Statement) : Index :=
  match st.owner with
  | some owner =>
    { i with
      locals := i.locals.file owner st.id
      byTerm := i.byTerm.file (owner, st.term) st.id }
  | none => { i with roots := i.roots.insert st.id }

def insertDependencies (i : Index) (st : Statement) : Index :=
  { i with
    dependents := st.dependencies.toList.foldl (fun p dep => p.file dep st.id) i.dependents }

def insertKind (i : Index) (st : Statement) : Index :=
  match st.kind with
  | .context data => { i with byConsequent := i.byConsequent.file data.consequent st.id }
  | .specialization general _ => { i with byGeneral := i.byGeneral.file general st.id }
  | _ => i

/-- File a statement under its name, in place of whatever had the name in its scope. -/
def insertName (i : Index) (st : Statement) : Index :=
  match st.identifier with
  | some name =>
    { i with names := ((st.owner, name), st.id) :: i.names.filter fun e => e.1 ≠ (st.owner, name) }
  | none => i

def insert (i : Index) (st : Statement) : Index :=
  (((i.insertPlace st).insertDependencies st).insertKind st).insertName st

/-- Take a statement away from its owner and its term, or from the roots. -/
def removePlace (i : Index) (st : Statement) : Index :=
  match st.owner with
  | some owner =>
    { i with
      locals := i.locals.unfile owner st.id
      byTerm := i.byTerm.unfile (owner, st.term) st.id }
  | none => { i with roots := i.roots.filter fun id => id ≠ st.id }

def removeDependencies (i : Index) (st : Statement) : Index :=
  { i with
    dependents := st.dependencies.toList.foldl (fun p dep => p.unfile dep st.id) i.dependents }

/-- Take a statement away from what its kind names. -/
def removeKind (i : Index) (st : Statement) : Index :=
  match st.kind with
  | .context data => { i with byConsequent := i.byConsequent.unfile data.consequent st.id }
  | .specialization general _ => { i with byGeneral := i.byGeneral.unfile general st.id }
  | _ => i

/-- Take a statement away from its name, if the name is its own. -/
def removeName (i : Index) (st : Statement) : Index :=
  match st.identifier with
  | some name => { i with names := i.names.filter fun e => e ≠ ((st.owner, name), st.id) }
  | none => i

def remove (i : Index) (st : Statement) : Index :=
  (((i.removePlace st).removeDependencies st).removeKind st).removeName st

def lookupName (i : Index) (scope : NameScope) (name : Identifier) : Option StatementId :=
  (i.names.find? fun e => e.1 = (scope, name)).map Prod.snd

def namesIn (i : Index) (scope : NameScope) : List (Identifier × StatementId) :=
  ((i.names.filter fun e => e.1.1 = scope).map fun e => (e.1.2, e.2)).mergeSort
    fun a b => a.1.le b.1

end Index

end StatementGraph
