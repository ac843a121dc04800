import StatementGraph.Failure

namespace StatementGraph

def TermError.kind : TermError → String
  | untyped _ => "Untyped"
  | typeMismatch _ _ => "TypeMismatch"
  | notAFunction _ => "NotAFunction"
  | notAVariable _ => "NotAVariable"

def StructureError.kind : StructureError → String
  | unboundVariable _ _ => "UnboundVariable"
  | variableTypeMismatch _ => "VariableTypeMismatch"
  | notCastFree _ => "NotCastFree"
  | untypedDeclaration _ _ => "UntypedDeclaration"
  | notFound _ => "NotFound"
  | notAContext _ => "NotAContext"
  | notADeclaration _ => "NotADeclaration"
  | notInContext _ _ => "NotInContext"
  | hasDependents _ _ => "HasDependents"
  | cannotDeleteAssumption _ => "CannotDeleteAssumption"
  | copyCycle _ => "CopyCycle"
  | missingCounterpart _ => "MissingCounterpart"
  | authorityExists _ => "AuthorityExists"
  | noAuthority _ => "NoAuthority"

def NamingError.kind : NamingError → String
  | invalidIdentifier _ => "InvalidIdentifier"
  | alreadyInUse _ _ => "AlreadyInUse"
  | notIdentified _ => "NotIdentified"
  | signedStatement _ => "SignedStatement"

def UndeleteError.kind : UndeleteError → String
  | nothingToUndelete => "NothingToUndelete"
  | contextMissing _ _ => "ContextMissing"

def StoreError.kind : StoreError → String
  | io _ => "Io"
  | database _ => "Redb"
  | serialization _ => "Serialization"
  | lockTimeout _ => "LockTimeout"
  | transactionClosed _ => "TransactionClosed"

def EngineError.kind : EngineError → String
  | invalidConfig _ => "InvalidConfig"
  | configRead _ _ => "ConfigRead"
  | configParse _ _ => "ConfigParse"
  | configWrite _ _ => "ConfigWrite"
  | inconsistent _ => "Inconsistent"

def Breakdown.kind : Breakdown → String
  | overflow => "Overflow"
  | endless => "Endless"

/-- The words for a failure: the part it comes from and the error there. -/
def Failure.kind : Failure → String
  | term e => "Term." ++ e.kind
  | structural e => "Structure." ++ e.kind
  | naming e => "Naming." ++ e.kind
  | undelete e => "Undelete." ++ e.kind
  | store e => "Store." ++ e.kind
  | engine e => "Engine." ++ e.kind
  | breakdown cause => "Breakdown." ++ cause.kind

structure Details where
  number : String → Nat
  text : String → String

def Failure.ofKind? (kind : String) (d : Details) : Option Failure :=
  match kind with
  | "Term.Untyped" => some (.term (.untyped (d.text "term")))
  | "Term.TypeMismatch" => some (.term (.typeMismatch (d.text "expected") (d.text "found")))
  | "Term.NotAFunction" => some (.term (.notAFunction (d.text "term")))
  | "Term.NotAVariable" => some (.term (.notAVariable (d.text "term")))
  | "Structure.UnboundVariable" =>
    some (.structural (.unboundVariable (d.number "variable") (d.text "context")))
  | "Structure.VariableTypeMismatch" =>
    some (.structural (.variableTypeMismatch (d.number "variable")))
  | "Structure.NotCastFree" => some (.structural (.notCastFree (d.text "term")))
  | "Structure.UntypedDeclaration" =>
    some (.structural (.untypedDeclaration (d.text "value") (.untyped (d.text "term"))))
  | "Structure.NotFound" => some (.structural (.notFound (d.number "id")))
  | "Structure.NotAContext" => some (.structural (.notAContext (d.number "id")))
  | "Structure.NotADeclaration" => some (.structural (.notADeclaration (d.number "id")))
  | "Structure.NotInContext" =>
    some (.structural (.notInContext (d.number "id") (d.number "context")))
  | "Structure.HasDependents" =>
    some (.structural (.hasDependents (d.number "id") (d.number "count")))
  | "Structure.CannotDeleteAssumption" =>
    some (.structural (.cannotDeleteAssumption (d.number "id")))
  | "Structure.CopyCycle" => some (.structural (.copyCycle (d.number "id")))
  | "Structure.MissingCounterpart" => some (.structural (.missingCounterpart (d.number "id")))
  | "Structure.AuthorityExists" => some (.structural (.authorityExists (d.number "id")))
  | "Structure.NoAuthority" => some (.structural (.noAuthority (d.number "id")))
  | "Naming.InvalidIdentifier" => some (.naming (.invalidIdentifier (d.text "identifier")))
  | "Naming.AlreadyInUse" =>
    some (.naming (.alreadyInUse (d.text "identifier") (d.number "existing")))
  | "Naming.NotIdentified" => some (.naming (.notIdentified (d.number "id")))
  | "Naming.SignedStatement" => some (.naming (.signedStatement (d.number "id")))
  | "Undelete.NothingToUndelete" => some (.undelete .nothingToUndelete)
  | "Undelete.ContextMissing" =>
    some (.undelete (.contextMissing (d.number "id") (d.number "context")))
  | "Store.Io" => some (.store (.io (d.text "io")))
  | "Store.Redb" => some (.store (.database (d.text "message")))
  | "Store.Serialization" => some (.store (.serialization (d.text "message")))
  | "Store.LockTimeout" => some (.store (.lockTimeout (d.number "id")))
  | "Store.TransactionClosed" => some (.store (.transactionClosed (d.number "id")))
  | "Engine.InvalidConfig" => some (.engine (.invalidConfig (d.text "message")))
  | "Engine.ConfigRead" => some (.engine (.configRead (d.text "path") (d.text "io")))
  | "Engine.ConfigParse" => some (.engine (.configParse (d.text "path") (d.text "message")))
  | "Engine.ConfigWrite" => some (.engine (.configWrite (d.text "path") (d.text "io")))
  | "Engine.Inconsistent" => some (.engine (.inconsistent (d.text "message")))
  | _ => none

end StatementGraph
