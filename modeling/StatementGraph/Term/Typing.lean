import StatementGraph.Term.Equality
import StatementGraph.Term.Substitution

namespace StatementGraph

/-- Why a term has no type, or cannot be used where it is. Terms are given by their texts. -/
inductive TermError where
  | untyped (term : String)
  | typeMismatch (expected found : String)
  | notAFunction (term : String)
  | notAVariable (term : String)
deriving DecidableEq

def TermError.message : TermError → String
  | untyped term => "term has no type: " ++ term
  | typeMismatch expected found => "type mismatch: expected " ++ expected ++ ", found " ++ found
  | notAFunction term => "cannot compose: " ++ term ++ " is not a function"
  | notAVariable term => "replacement target is not a variable: " ++ term

namespace Term

/-- Put an argument of type `found` in place of the parameter `p`, which has the type `domain`. -/
def instantiate (p : ParamId) (domain body arg found : Term) : Except TermError Term :=
  if found == domain then .ok (body.replaceParam p arg)
  else .error (.typeMismatch domain.text found.text)

/-- The type of a term, where `again` types the type of what is inside a cast. -/
def typeOfWith (again : Term → Except TermError Term) : Term → Except TermError Term
  | tau => .error (.untyped tau.text)
  | atom _ => .ok tau
  | var _ type => .ok type
  | param _ type => .ok type
  | function p domain body => (typeOfWith again body).map (function p domain)
  | apply head arg => do
    match (← typeOfWith again head).unproject with
    | function p domain body => instantiate p domain body arg (← typeOfWith again arg)
    | _ => .error (.notAFunction head.text)
  | projection inner => typeOfWith again inner
  | cast inner => do again (← typeOfWith again inner)

/-- The type of a term whose casts are at most `depth` deep in one another. -/
def typeOfDepth : Nat → Term → Except TermError Term
  | 0 => fun t => .error (.untyped t.text)
  | depth + 1 => typeOfWith (typeOfDepth depth)

/-- The type of a term. If typing it does not end within this depth, it counts as untyped. -/
def typeOf (t : Term) : Except TermError Term := typeOfDepth (Nat.pow 2 t.fullSize) t

/-- Apply a term to an argument. A function is instantiated, also under markers. -/
def compose (t arg : Term) : Except TermError Term :=
  match t with
  | function p domain body => do instantiate p domain body arg (← arg.typeOf)
  | projection inner => inner.compose arg
  | _ => do
    let _ ← (apply t arg).typeOf
    return apply t arg

def replace (t target image : Term) : Except TermError Term :=
  match target with
  | var id _ => .ok (t.replaceVar id image)
  | param id _ => .ok (t.replaceParam id image)
  | _ => .error (.notAVariable target.text)

end Term

end StatementGraph
