import StatementGraph.Term.Typing
import StatementGraph.Text.Printable

namespace StatementGraph

/-- Violations of the structure of the graph. Statements are given by their numbers. -/
inductive StructureError where
  | unboundVariable (subject : Nat) (context : String)
  | variableTypeMismatch (subject : Nat)
  | notCastFree (term : String)
  | untypedDeclaration (value : String) (cause : TermError)
  | notFound (id : Nat)
  | notAContext (id : Nat)
  | notADeclaration (id : Nat)
  | notInContext (id context : Nat)
  | hasDependents (id count : Nat)
  | cannotDeleteAssumption (id : Nat)
  | copyCycle (id : Nat)
  | missingCounterpart (id : Nat)
  | authorityExists (id : Nat)
  | noAuthority (id : Nat)
deriving DecidableEq

inductive NamingError where
  | invalidIdentifier (identifier : String)
  | alreadyInUse (identifier : String) (existing : Nat)
  | notIdentified (id : Nat)
  | signedStatement (id : Nat)
deriving DecidableEq

/-- Faults in restoring what was deleted. -/
inductive UndeleteError where
  | nothingToUndelete
  | contextMissing (id context : Nat)
deriving DecidableEq

/-- Faults of the store, its locks and its archive. -/
inductive StoreError where
  | io (cause : String)
  | database (message : String)
  | serialization (message : String)
  | lockTimeout (id : Nat)
  | transactionClosed (id : Nat)
deriving DecidableEq

inductive EngineError where
  | invalidConfig (message : String)
  | configRead (path cause : String)
  | configParse (path message : String)
  | configWrite (path cause : String)
  | inconsistent (message : String)
deriving DecidableEq

/-- Why a call does not come back: a number has no successor, or a propagation never ends. -/
inductive Breakdown where
  | overflow
  | endless
deriving DecidableEq

/-- A failed request. Of a call that breaks down nothing else is said. -/
inductive Failure where
  | term (error : TermError)
  | structural (error : StructureError)
  | naming (error : NamingError)
  | undelete (error : UndeleteError)
  | store (error : StoreError)
  | engine (error : EngineError)
  | breakdown (cause : Breakdown)
deriving DecidableEq

/-- A failure as others quote it: its code for tools and its hint for the user. -/
structure Advice where
  code : String
  help : String

def TermError.advice : TermError → Advice
  | untyped _ => ⟨"pw::term::untyped",
      "Tau is the type of propositions and has no type itself. " ++
      "Use it as a parameter type, not as a value."⟩
  | typeMismatch _ _ => ⟨"pw::term::type_mismatch",
      "The argument's type must equal the function's parameter type " ++
      "(up to renaming of bound parameters)."⟩
  | notAFunction _ => ⟨"pw::term::not_a_function",
      "Only terms whose type is a function type can be applied to an argument."⟩
  | notAVariable _ => ⟨"pw::term::not_a_variable",
      "`replace` substitutes statement variables or bound parameters only."⟩

namespace StructureError

def message : StructureError → String
  | unboundVariable v context =>
    "variable " ++ toString v ++ " is not visible from context " ++ context
  | variableTypeMismatch v =>
    "variable " ++ toString v ++ " carries a type that differs from its statement's term"
  | notCastFree term => "term is not cast-free: " ++ term
  | untypedDeclaration value _ => "declared value has no well-formed type: " ++ value
  | notFound id => "statement " ++ toString id ++ " not found"
  | notAContext id => "statement " ++ toString id ++ " is not a context"
  | notADeclaration id => "statement " ++ toString id ++ " is not a declaration"
  | notInContext id context =>
    "statement " ++ toString id ++ " is not local to context " ++ toString context
  | hasDependents id count =>
    "statement " ++ toString id ++ " has " ++ toString count ++ " dependent statement(s)"
  | cannotDeleteAssumption id => "assumption " ++ toString id ++ " cannot be deleted on its own"
  | copyCycle id => "cyclic copy detected at statement " ++ toString id
  | missingCounterpart id =>
    "no counterpart for statement " ++ toString id ++ " in the copy correspondence"
  | authorityExists id => "statement " ++ toString id ++ " already has an authority"
  | noAuthority id => "statement " ++ toString id ++ " has no authority"

def advice : StructureError → Advice
  | unboundVariable _ _ => ⟨"pw::structure::unbound_variable",
      "Every variable in a new term must denote a statement of this context " ++
      "or one of its ancestors."⟩
  | variableTypeMismatch _ => ⟨"pw::structure::variable_type",
      "Build variable references with `Term::var(&statement)` so the type matches."⟩
  | notCastFree _ => ⟨"pw::structure::not_cast_free",
      "Resolve pending type casts before asserting the term."⟩
  | untypedDeclaration _ _ => ⟨"pw::structure::untyped_declaration",
      "A declaration's term is the type of its value, so the value must type-check."⟩
  | notFound _ => ⟨"pw::structure::not_found",
      "The statement does not exist. It may have been deleted by another transaction."⟩
  | notAContext _ => ⟨"pw::structure::not_a_context",
      "This operation needs a context (including root and unfolding contexts)."⟩
  | notADeclaration _ => ⟨"pw::structure::not_a_declaration",
      "Unfolding contexts unfold the value of a declaration."⟩
  | notInContext _ _ => ⟨"pw::structure::not_in_context",
      "Delete statements through the context that directly owns them."⟩
  | hasDependents _ _ => ⟨"pw::structure::has_dependents",
      "Delete the dependents first, or use `delete_statement_cascade` to " ++
      "remove them together with this statement."⟩
  | cannotDeleteAssumption _ => ⟨"pw::structure::assumption",
      "Assumptions belong to their context. Delete the owning context instead."⟩
  | copyCycle _ => ⟨"pw::structure::copy_cycle",
      "A context cannot be copied into itself or into one of its own descendants."⟩
  | missingCounterpart _ => ⟨"pw::structure::missing_counterpart",
      "Assumptions are never copied; they resolve through the copy of their " ++
      "owning context, which must be part of the copy or the correspondence map."⟩
  | authorityExists _ => ⟨"pw::structure::authority_exists",
      "Delete the existing authority before creating a new one."⟩
  | noAuthority _ => ⟨"pw::structure::no_authority",
      "Create an authority for the statement first."⟩

end StructureError

namespace NamingError

def message : NamingError → String
  | invalidIdentifier identifier => "invalid identifier: " ++ Text.quoted identifier
  | alreadyInUse identifier existing =>
    "identifier " ++ identifier ++ " already in use by statement " ++ toString existing
  | notIdentified id => "statement " ++ toString id ++ " has no identifier"
  | signedStatement id => "statement " ++ toString id ++ " has a signed authority"

def advice : NamingError → Advice
  | invalidIdentifier _ => ⟨"pw::naming::invalid",
      "Identifiers are dot-separated names, each starting with a letter or underscore."⟩
  | alreadyInUse _ _ => ⟨"pw::naming::in_use",
      "Pick another identifier or unidentify the existing statement first."⟩
  | notIdentified _ => ⟨"pw::naming::not_identified",
      "Only identified statements can be unidentified."⟩
  | signedStatement _ => ⟨"pw::naming::signed",
      "Renaming would invalidate the authority's signature. Retry with " ++
      "`force = true` to rename anyway and drop the signature."⟩

end NamingError

namespace UndeleteError

def message : UndeleteError → String
  | nothingToUndelete => "nothing to undelete"
  | contextMissing id context =>
    "context " ++ toString context ++ " of statement " ++ toString id ++ " no longer exists"

def advice : UndeleteError → Advice
  | nothingToUndelete => ⟨"pw::undelete::empty",
      "The undo log is empty: no committed deletion is left in this session."⟩
  | contextMissing _ _ => ⟨"pw::undelete::context_missing",
      "The statement's context was deleted after it. Undelete the context first."⟩

end UndeleteError

namespace StoreError

def message : StoreError → String
  | io cause => "I/O error: " ++ cause
  | database message => "redb transaction error: " ++ message
  | serialization message => "serialization error: " ++ message
  | lockTimeout id => "timed out waiting for the lock on statement " ++ toString id
  | transactionClosed id => "transaction " ++ toString id ++ " is already closed"

def advice : StoreError → Advice
  | io _ => ⟨"pw::store::io",
      "A filesystem operation failed. Check that the data directory exists, " ++
      "has correct permissions, and that the disk is not full."⟩
  | database _ => ⟨"pw::store::redb",
      "The embedded database encountered a transaction error. " ++
      "This may indicate corruption; try running with a fresh data directory."⟩
  | serialization _ => ⟨"pw::store::serde",
      "Failed to serialize or deserialize a statement record. " ++
      "This usually means the stored format changed between versions."⟩
  | lockTimeout _ => ⟨"pw::store::lock_timeout",
      "Another transaction holds the record lock. Retry later or raise " ++
      "`lock_timeout_ms` in the engine configuration."⟩
  | transactionClosed _ => ⟨"pw::store::closed",
      "Begin a new transaction with `Engine::begin()`."⟩

end StoreError

namespace EngineError

def message : EngineError → String
  | invalidConfig message => "invalid configuration: " ++ message
  | configRead path _ => "failed to read engine config: " ++ path
  | configParse path message => "failed to parse engine config: " ++ path ++ ": " ++ message
  | configWrite path _ => "failed to write engine config: " ++ path
  | inconsistent message => "internal inconsistency: " ++ message

def advice : EngineError → Advice
  | invalidConfig message => ⟨"pw::engine::invalid_config",
      "Check the EngineConfig fields. " ++ message⟩
  | configRead _ _ => ⟨"pw::engine::config_read",
      "Ensure the config file exists and is readable."⟩
  | configParse _ _ => ⟨"pw::engine::config_parse",
      "Check the TOML syntax in the config file."⟩
  | configWrite _ _ => ⟨"pw::engine::config_write",
      "Check that the parent directory is writable."⟩
  | inconsistent _ => ⟨"pw::engine::inconsistent",
      "The statement graph violates one of its own invariants. This is a bug; " ++
      "abort the transaction and file a report."⟩

end EngineError

def Breakdown.message : Breakdown → String
  | overflow => "attempt to add with overflow"
  | endless => "the propagation does not end"

namespace Failure

def message : Failure → String
  | term e => e.message
  | structural e => e.message
  | naming e => e.message
  | undelete e => e.message
  | store e => e.message
  | engine e => e.message
  | breakdown cause => cause.message

/-- Code and hint of the failure. There are none for a breakdown. -/
def advice : Failure → Advice
  | term e => e.advice
  | structural e => e.advice
  | naming e => e.advice
  | undelete e => e.advice
  | store e => e.advice
  | engine e => e.advice
  | breakdown _ => ⟨"", ""⟩

def cause? : Failure → Option String
  | structural (.untypedDeclaration _ cause) => some cause.message
  | store (.io cause) => some cause
  | engine (.configRead _ cause) => some cause
  | engine (.configWrite _ cause) => some cause
  | _ => none

/-- Whether the failure means a broken invariant and not a refused request. -/
def isFatal : Failure → Bool
  | engine (.inconsistent _) => true
  | _ => false

def breakdown? : Failure → Option Breakdown
  | breakdown cause => some cause
  | _ => none

end Failure

end StatementGraph
