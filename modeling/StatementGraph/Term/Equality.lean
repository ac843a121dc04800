import StatementGraph.Term.Basic

namespace StatementGraph

namespace Term

/-- Whether two parameters agree under binders that were met together, innermost first. -/
def sameParam : List (ParamId × ParamId) → ParamId → ParamId → Bool
  | [], a, b => a = b
  | (l, r) :: rest, a, b => if l = a ∨ r = b then l = a ∧ r = b else sameParam rest a b

/-- Equality of terms under binders that were met together. -/
def equivUnder (pairs : List (ParamId × ParamId)) : Term → Term → Bool
  | tau, tau => true
  | atom a, atom b => a = b
  | var a _, var b _ => a = b
  | param a _, param b _ => sameParam pairs a b
  | function p d b, function q e c => equivUnder pairs d e && equivUnder ((p, q) :: pairs) b c
  | apply h a, apply k b => equivUnder pairs h k && equivUnder pairs a b
  | projection a, projection b => equivUnder pairs a b
  | cast a, cast b => equivUnder pairs a b
  | _, _ => false

/-- Equality of terms up to the names of bound parameters. -/
def equiv (a b : Term) : Bool := equivUnder [] a b

instance : BEq Term := ⟨equiv⟩

inductive Symbol where
  | tag (n : Nat)
  | name (text : String)
  | number (n : Nat)
deriving DecidableEq

/-- The code of a term, with bound parameters by their distance to their binders. -/
def codeUnder (binders : List ParamId) : Term → List Symbol
  | tau => [.tag 0]
  | atom name => [.tag 1, .name name]
  | var id _ => [.tag 2, .number id.raw]
  | param id _ =>
    match binders.idxOf? id with
    | some i => [.tag 3, .tag 0, .number (i + 1)]
    | none => [.tag 3, .tag 1, .number id.raw]
  | function p d b => .tag 4 :: (codeUnder binders d ++ codeUnder (p :: binders) b)
  | apply h a => .tag 5 :: (codeUnder binders h ++ codeUnder binders a)
  | projection a => .tag 6 :: codeUnder binders a
  | cast a => .tag 7 :: codeUnder binders a

def code (t : Term) : List Symbol := codeUnder [] t

/-- Whether a collection that files terms by their codes and holds `a` finds `b` in it. -/
def filedWith (a b : Term) : Bool := a.code = b.code && a.equiv b

end Term

end StatementGraph
