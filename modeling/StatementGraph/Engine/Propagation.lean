import StatementGraph.Engine.Basic
import StatementGraph.Rule

namespace StatementGraph

/-- What a propagation did: how many statements it looked at, and which flags it changed. -/
structure PropagationReport where
  checked : Nat := 0
  flipped : List (StatementId × Bool) := []

/-- Whether contexts that may be solved are queued, and whether listeners are told. -/
structure PropagationMode where
  solved : Bool
  announce : Bool

structure Propagation where
  engine : Engine
  queue : List StatementId
  report : PropagationReport := {}

namespace Propagation

/-- The statements to which a changed flag may matter. -/
def affected (mode : PropagationMode) (s : Store) (st : Statement) : List StatementId :=
  let solved := match mode.solved, st.owner with
    | true, some owner => (s.contextsBelowByConsequent owner st.term).filter (· ≠ st.id)
    | _, _ => []
  s.dependentsOf st.id ++ solved

/-- Look at the first statement of the queue. A statement is in the queue once at most. -/
def step (mode : PropagationMode) (t : TransactionId) (run : Propagation) : Propagation :=
  match run.queue with
  | [] => run
  | id :: rest =>
    let report := { run.report with checked := run.report.checked + 1 }
    match run.engine.store.get? id with
    | none => { run with queue := rest, report }
    | some st =>
      let proved := run.engine.store.holds st
      if proved = st.proved then { run with queue := rest, report }
      else
        let engine := run.engine.setProved t id proved
        { engine := if mode.announce then engine.notify t (.proved id proved) else engine
          queue := rest ++ Walk.unseen rest (affected mode engine.store st)
          report := { report with flipped := report.flipped ++ [(id, proved)] } }

/-- Look at statements until the queue is empty, or `steps` were made. -/
def drain (mode : PropagationMode) (t : TransactionId) : Nat → Propagation → Propagation
  | 0, run => run
  | steps + 1, run =>
    match run.queue with
    | [] => run
    | _ :: _ => drain mode t steps (step mode t run)

/-- The ways to set `n` flags and to fill the queue: a propagation not done by then never is. -/
def bound (n : Nat) : Nat := Nat.pow (2 * (n + 1)) n

end Propagation

namespace Engine

/-- The propagation from the seeds in a given mode. It is at rest, or goes on for ever. -/
def propagation (e : Engine) (mode : PropagationMode) (t : TransactionId)
    (seeds : List StatementId) : Propagation :=
  let queue := Walk.unseen [] seeds
  Propagation.drain mode t (Propagation.bound (e.store.size + queue.length)) { engine := e, queue }

/-- Go on with what a propagation left. One that is not at rest never comes back. -/
def await (run : Propagation) : Action Unit :=
  if run.queue.isEmpty then set run.engine else throw (.breakdown .endless)

/-- Propagate from the seeds. Contexts that statements may solve are left alone without `solved`. -/
def propagate (t : TransactionId) (seeds : List StatementId) (solved : Bool) :
    Action PropagationReport := do
  let run := (← get).propagation ⟨solved, true⟩ t seeds
  await run
  return run.report

end Engine

namespace Store

/-- The statements inside a statement, its dependents, and the contexts it may solve. -/
def supported (s : Store) (id : StatementId) : List StatementId :=
  let solved := match s.get? id with
    | some st => match st.owner with
      | some owner => s.contextsBelowByConsequent owner st.term
      | none => []
    | none => []
  s.localsOf id ++ s.dependentsOf id ++ solved

def region (s : Store) (seeds : List StatementId) : IdSet :=
  IdSet.ofList (Walk.reach s.supported (s.size + seeds.length) seeds)

end Store

namespace Engine

def clearFlag (t : TransactionId) (e : Engine) (id : StatementId) : Engine :=
  if e.store.isProved id then e.setProved t id false else e

/-- Let listeners hear of a flag that is not what it was before. -/
def announceChange (t : TransactionId) (before : Store) (e : Engine) (id : StatementId) : Engine :=
  match before.get? id, e.store.get? id with
  | some old, some new =>
    if old.proved = new.proved then e else e.notify t (.proved id new.proved)
  | _, _ => e

/-- Clear every flag that the seeds may support and derive the flags anew. -/
def rederive (e : Engine) (t : TransactionId) (seeds : List StatementId) :
    PropagationReport × Engine :=
  let members := (e.store.region seeds).toList
  let cleared := members.foldl (clearFlag t) e
  let run := cleared.propagation ⟨true, false⟩ t (cleared.store.dependencySorted members true)
  (run.report, members.foldl (announceChange t e.store) run.engine)

/-- Derive the flags of a statement and of all it may support anew. -/
def rebuild (t : TransactionId) (id : StatementId) : Action PropagationReport := do
  ensureOpen t
  let _ ← (← get).store.require id
  let (report, e) := (← get).rederive t [id]
  set e
  return report

end Engine

end StatementGraph
