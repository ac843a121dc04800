import StatementGraph.Term.Basic

namespace StatementGraph

namespace Term

/-- Replace each variable that has an image. Images are not searched again. -/
def mapVars (f : StatementId → Option Term) : Term → Term
  | tau => tau
  | atom name => atom name
  | var id type => (f id).getD (var id type)
  | param id type => param id (mapVars f type)
  | function p domain body => function p (mapVars f domain) (mapVars f body)
  | apply head arg => apply (mapVars f head) (mapVars f arg)
  | projection inner => projection (mapVars f inner)
  | cast inner => cast (mapVars f inner)

def replaceVar (t : Term) (id : StatementId) (image : Term) : Term :=
  t.mapVars fun v => if v = id then some image else none

def replaceVars (t : Term) (images : Table StatementId Term) : Term := t.mapVars images.get?

def replaceParam (t : Term) (p : ParamId) (image : Term) : Term :=
  match t with
  | tau => tau
  | atom name => atom name
  | var id type => var id type
  | param id type => if id = p then image else param id (type.replaceParam p image)
  | function binder domain body =>
    function binder (domain.replaceParam p image)
      (if binder = p then body else body.replaceParam p image)
  | apply head arg => apply (head.replaceParam p image) (arg.replaceParam p image)
  | projection inner => projection (inner.replaceParam p image)
  | cast inner => cast (inner.replaceParam p image)

/-- Strip every projection marker. -/
def unproject : Term → Term
  | tau => tau
  | atom name => atom name
  | var id type => var id type
  | param id type => param id type.unproject
  | function p domain body => function p domain.unproject body.unproject
  | apply head arg => apply head.unproject arg.unproject
  | projection inner => inner.unproject
  | cast inner => cast inner.unproject

def arity : Term → Nat
  | function _ _ body => body.arity + 1
  | _ => 0

/-- Turn the parameters at the front of a term into variables, one for each id. -/
def peel : List StatementId → Term → List (StatementId × Term) × Term
  | id :: ids, function p domain body =>
    let (rest, consequent) := peel ids (body.replaceParam p (var id domain))
    ((id, domain) :: rest, consequent)
  | _, t => ([], t)

end Term

end StatementGraph
