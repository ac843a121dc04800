import StatementGraph.Term.Basic

namespace StatementGraph

def ParamId.isFresh (p : ParamId) : Bool := UInt64.size ≤ p.raw

/-- How many fresh parameters were handed out. -/
structure Supply where
  used : Nat := 0

namespace Supply

def take (s : Supply) : ParamId × Supply := (⟨UInt64.size + s.used⟩, ⟨s.used + 1⟩)

/-- The function type whose codomain does not mention its parameter. -/
def arrow (domain codomain : Term) (s : Supply) : Term × Supply :=
  (.function s.take.1 domain codomain, s.take.2)

/-- Nested functions over the given domains, with a body made from their parameters. -/
def functions (domains : List Term) (body : List Term → Term) (s : Supply) : Term × Supply :=
  go domains [] s
where
  /-- The functions over the domains left, under the parameters bound so far. -/
  go : List Term → List Term → Supply → Term × Supply
    | [], bound, s => (body bound.reverse, s)
    | domain :: rest, bound, s =>
      let (p, s) := s.take
      let (inner, s) := go rest (.param p domain :: bound) s
      (.function p domain inner, s)

end Supply

end StatementGraph
