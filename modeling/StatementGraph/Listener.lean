import StatementGraph.Authority
import StatementGraph.Statement

namespace StatementGraph

inductive Event where
  /-- The flag of a statement has changed to the given one. -/
  | proved (id : StatementId) (flag : Bool)
  /-- A statement was added to a context, or as a root, with a flag. -/
  | added (id : StatementId) (context : Option StatementId) (flag : Bool)
  /-- A statement was deleted that had a name or none. -/
  | deleted (id : StatementId) (context : Option StatementId) (name : Option Identifier)
  /-- A statement was given an authority. -/
  | authorityCreated (authority : Authority)
  /-- A statement lost its authority. -/
  | authorityDeleted (authority : Authority)
deriving DecidableEq

namespace Event

/-- The statements whose listeners hear of a change. -/
def subjects : Event → List StatementId
  | proved id _ => [id]
  | added _ context _ => context.toList
  | deleted id context _ => id :: context.toList
  | authorityCreated a => [a.statement]
  | authorityDeleted a => [a.statement]

def isStructural : Event → Bool
  | added _ _ _ => true
  | deleted _ _ _ => true
  | _ => false

end Event

/-- A label, and whether additions and deletions are to be heard again at the commit. -/
structure Listener where
  label : String
  defer : Bool
deriving DecidableEq

inductive Notice where
  /-- A listener hears of a change. -/
  | event (label : String) (event : Event)
  /-- A listener hears of a change again, now that it is committed. -/
  | deferred (label : String) (event : Event)
  /-- A hook of a transaction has run. -/
  | hook (label : String)
deriving DecidableEq

structure ListenerId where
  raw : Nat
deriving DecidableEq

/-- Listeners in the order of their registration, of every change and of one statement each. -/
structure Registry where
  next : Nat := 0
  everywhere : List (ListenerId × Listener) := []
  keyed : List (StatementId × ListenerId × Listener) := []

namespace Registry

/-- Register a listener, for one statement or for every change. -/
def add (r : Registry) (subject : Option StatementId) (listener : Listener) :
    ListenerId × Registry :=
  let handle : ListenerId := ⟨r.next⟩
  match subject with
  | none =>
    (handle, { r with next := r.next + 1, everywhere := r.everywhere ++ [(handle, listener)] })
  | some id => (handle, { r with next := r.next + 1, keyed := r.keyed ++ [(id, handle, listener)] })

def size (r : Registry) : Nat := r.everywhere.length + r.keyed.length

/-- Remove a listener. Also says whether it was registered. -/
def remove (r : Registry) (handle : ListenerId) : Bool × Registry :=
  let left : Registry :=
    { r with
      everywhere := r.everywhere.filter fun e => e.1 ≠ handle
      keyed := r.keyed.filter fun e => e.2.1 ≠ handle }
  (left.size ≠ r.size, left)

def forget (r : Registry) (id : StatementId) : Registry :=
  { r with keyed := r.keyed.filter fun e => e.1 ≠ id }

def clear (r : Registry) : Registry := { r with everywhere := [], keyed := [] }

/-- Who hears of a change: for each subject its listeners, then the listeners of every change. -/
def hearers (r : Registry) (event : Event) : List Listener :=
  (event.subjects.flatMap fun id => (r.keyed.filter fun e => e.1 = id).map fun e => e.2.2)
    ++ r.everywhere.map Prod.snd

end Registry

end StatementGraph
