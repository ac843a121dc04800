namespace StatementGraph.Walk

variable {α : Type} [DecidableEq α]

/-- The nodes of a list that are not among those found, each once. -/
def unseen (found : List α) : List α → List α
  | [] => []
  | x :: rest => if x ∈ found then unseen found rest else x :: unseen (x :: found) rest

/-- Expand the nodes on a stack; the neighbour that is found last is expanded next. -/
def explore (next : α → List α) : Nat → List α → List α → List α
  | 0, _, found => found
  | _ + 1, [], found => found
  | steps + 1, x :: stack, found =>
    let new := unseen found (next x)
    explore next steps (new.reverse ++ stack) (found ++ new)

def reach (next : α → List α) (bound : Nat) (seeds : List α) : List α :=
  let start := unseen [] seeds
  explore next bound start start

/-- What a depth-first ordering has done so far: the nodes it has entered, and those it has left. -/
structure Progress (α : Type) where
  entered : List α := []
  left : List α := []

/-- Enter a node that was not entered before: visit what comes before it, then leave it. -/
def visit (before : α → List α) : Nat → Progress α → α → Progress α
  | 0, progress, _ => progress
  | depth + 1, progress, x =>
    if x ∈ progress.entered then progress
    else
      let inside := (before x).foldl (visit before depth)
        { progress with entered := x :: progress.entered }
      { inside with left := inside.left ++ [x] }

/-- The nodes of a list, each once and after those before it, but for edges that close a cycle. -/
def order (before : α → List α) (nodes : List α) : List α :=
  (nodes.foldl (visit before nodes.length) {}).left

end StatementGraph.Walk
