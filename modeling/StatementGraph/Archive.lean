import StatementGraph.Authority
import StatementGraph.Failure
import StatementGraph.Statement

namespace StatementGraph

/-- The rows kept for statements and for authorities. -/
structure Archive (σ α : Type) where
  statements : Table Nat σ := {}
  authorities : Table Nat α := {}

/-- Rows to write, in order; no value means that the row is removed. -/
structure ArchiveBatch (σ α : Type) where
  statements : List (Nat × Option σ) := []
  authorities : List (Nat × Option α) := []

def ArchiveBatch.isEmpty {σ α : Type} (b : ArchiveBatch σ α) : Bool :=
  b.statements.isEmpty && b.authorities.isEmpty

def Archive.writeRows {β : Type} (t : Table Nat β) (rows : List (Nat × Option β)) : Table Nat β :=
  rows.foldl (fun t row => t.set row.1 row.2) t

def Archive.apply {σ α : Type} (a : Archive σ α) (b : ArchiveBatch σ α) : Archive σ α :=
  { statements := writeRows a.statements b.statements
    authorities := writeRows a.authorities b.authorities }

/-- A row as it is found when it is read. -/
inductive Cell (α : Type) where
  | intact (value : α)
  | damaged

def Cell.read {α : Type} : Cell α → Except Failure α
  | intact value => .ok value
  | damaged => .error (.store (.serialization "the row cannot be read"))

abbrev RecordArchive := Archive (Cell Statement) (Cell Authority)

/-- What is found in the place for an archive. -/
inductive Medium where
  /-- There is nothing yet. -/
  | absent
  /-- A plain file is in the way. -/
  | blocked
  /-- There is a database, but not one that can be read. -/
  | unreadable
  /-- There is an archive. -/
  | archive (content : RecordArchive)

/-- Open the archive in a place, or make one where there is nothing. -/
def Medium.mount : Medium → Except StoreError RecordArchive
  | absent => .ok {}
  | blocked => .error (.io "not a directory")
  | unreadable => .error (.database "failed to open the database")
  | archive content => .ok content

end StatementGraph
