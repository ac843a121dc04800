namespace StatementGraph

/-- The identity of a statement, which also names the variable the statement brings into terms. -/
structure StatementId where
  raw : Nat
  pos : 0 < raw
  bounded : raw < UInt64.size
deriving DecidableEq

namespace StatementId

instance : LT StatementId := ⟨fun a b => a.raw < b.raw⟩

instance : LE StatementId := ⟨fun a b => a.raw ≤ b.raw⟩

instance (a b : StatementId) : Decidable (a < b) := inferInstanceAs (Decidable (a.raw < b.raw))

instance (a b : StatementId) : Decidable (a ≤ b) := inferInstanceAs (Decidable (a.raw ≤ b.raw))

/-- The id with the number `n`, if `n` is positive and has 64 bits at most. -/
def ofNat? (n : Nat) : Option StatementId :=
  if h : 0 < n ∧ n < UInt64.size then some ⟨n, h.1, h.2⟩ else none

def text (id : StatementId) : String := "st:" ++ toString id.raw

theorem eq_of_raw {a b : StatementId} (h : a.raw = b.raw) : a = b := by
  cases a
  cases b
  cases h
  rfl

theorem lt_iff {a b : StatementId} : a < b ↔ a.raw < b.raw := Iff.rfl

end StatementId

/-- The counter behind fresh statement ids: `next` is handed out next. -/
structure Allocator where
  next : UInt64
deriving DecidableEq

namespace Allocator

def startingFrom (n : UInt64) : Allocator := ⟨if n = 0 then 1 else n⟩

def initial : Allocator := startingFrom 1

/-- Hand out an id and move on. The counter wraps, and at zero there is no id to hand out. -/
def take (a : Allocator) : Option StatementId × Allocator :=
  (StatementId.ofNat? a.next.toNat, ⟨a.next + 1⟩)

/-- Never hand out `id` or anything below it again. The last id has no successor to go on with. -/
def reserve (a : Allocator) (id : StatementId) : Option Allocator :=
  if id.raw + 1 < UInt64.size then
    let after := UInt64.ofNat (id.raw + 1)
    some (if a.next < after then ⟨after⟩ else a)
  else none

end Allocator

end StatementGraph
