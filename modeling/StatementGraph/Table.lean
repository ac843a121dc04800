import StatementGraph.Id

namespace StatementGraph

/-- Keys that are ordered by a number of their own. -/
class Ranked (κ : Type) where
  rank : κ → Nat
  eq_of_rank : ∀ {a b : κ}, rank a = rank b → a = b

instance : Ranked StatementId := ⟨StatementId.raw, StatementId.eq_of_raw⟩

instance : Ranked Nat := ⟨id, fun h => h⟩

/-- A finite map whose entries stand in ascending order of their keys. -/
structure Table (κ α : Type) [Ranked κ] where
  entries : List (κ × α)
  ascending : entries.Pairwise fun a b => Ranked.rank a.1 < Ranked.rank b.1

namespace Table

variable {κ α : Type} [Ranked κ]

/-- The value that a list of entries gives to a key. -/
def lookup (k : κ) : List (κ × α) → Option α
  | [] => none
  | (key, value) :: rest => if Ranked.rank key = Ranked.rank k then some value else lookup k rest

/-- Put an entry in its place, over an entry with the same key. -/
def insertEntry (k : κ) (v : α) : List (κ × α) → List (κ × α)
  | [] => [(k, v)]
  | (key, value) :: rest =>
    if Ranked.rank k < Ranked.rank key then (k, v) :: (key, value) :: rest
    else if Ranked.rank key = Ranked.rank k then (k, v) :: rest
    else (key, value) :: insertEntry k v rest

theorem mem_insertEntry {k : κ} {v : α} {e : κ × α} {l : List (κ × α)}
    (h : e ∈ insertEntry k v l) : e = (k, v) ∨ e ∈ l := by
  induction l with
  | nil => simpa [insertEntry] using h
  | cons head tail ih =>
    rw [insertEntry] at h
    split at h
    · simpa using h
    · split at h
      · rcases List.mem_cons.1 h with h | h
        · exact Or.inl h
        · exact Or.inr (List.mem_cons_of_mem _ h)
      · rcases List.mem_cons.1 h with h | h
        · exact Or.inr (h ▸ List.mem_cons_self)
        · exact (ih h).imp id (List.mem_cons_of_mem _)

theorem pairwise_insertEntry {k : κ} {v : α} {l : List (κ × α)}
    (h : l.Pairwise fun a b => Ranked.rank a.1 < Ranked.rank b.1) :
    (insertEntry k v l).Pairwise fun a b => Ranked.rank a.1 < Ranked.rank b.1 := by
  induction l with
  | nil => simp [insertEntry]
  | cons head tail ih =>
    obtain ⟨key, value⟩ := head
    have above := (List.pairwise_cons.1 h).1
    have rest := (List.pairwise_cons.1 h).2
    rw [insertEntry]
    split
    · rename_i lt
      refine List.pairwise_cons.2 ⟨fun e he => ?_, h⟩
      rcases List.mem_cons.1 he with rfl | he
      · exact lt
      · exact Nat.lt_trans lt (above e he)
    · split
      · rename_i eq
        exact List.pairwise_cons.2 ⟨fun e he => eq ▸ above e he, rest⟩
      · rename_i ge ne
        refine List.pairwise_cons.2 ⟨fun e he => ?_, ih rest⟩
        rcases mem_insertEntry he with rfl | he
        · exact Nat.lt_of_le_of_ne (Nat.le_of_not_lt ge) ne
        · exact above e he

def empty : Table κ α := ⟨[], List.Pairwise.nil⟩

instance : EmptyCollection (Table κ α) := ⟨empty⟩

instance : Inhabited (Table κ α) := ⟨empty⟩

def get? (t : Table κ α) (k : κ) : Option α := lookup k t.entries

def contains (t : Table κ α) (k : κ) : Bool := (t.get? k).isSome

/-- Give a key a value, in place of the one it had. -/
def insert (t : Table κ α) (k : κ) (v : α) : Table κ α :=
  ⟨insertEntry k v t.entries, pairwise_insertEntry t.ascending⟩

def erase (t : Table κ α) (k : κ) : Table κ α :=
  ⟨t.entries.filter fun e => Ranked.rank e.1 ≠ Ranked.rank k, t.ascending.filter _⟩

/-- Give a key a value, or forget it. -/
def set (t : Table κ α) (k : κ) : Option α → Table κ α
  | some v => t.insert k v
  | none => t.erase k

def keys (t : Table κ α) : List κ := t.entries.map Prod.fst

def values (t : Table κ α) : List α := t.entries.map Prod.snd

def size (t : Table κ α) : Nat := t.entries.length

/-- The table of a list of entries; of two with one key the later stays. -/
def ofList (entries : List (κ × α)) : Table κ α :=
  entries.foldl (fun t e => t.insert e.1 e.2) empty

theorem lookup_insertEntry_self (k : κ) (v : α) (l : List (κ × α)) :
    lookup k (insertEntry k v l) = some v := by
  induction l with
  | nil => simp [insertEntry, lookup]
  | cons head tail ih =>
    rw [insertEntry]
    split
    · simp [lookup]
    · split
      · simp [lookup]
      · rename_i ne
        simp [lookup, ne, ih]

theorem lookup_insertEntry_ne {k k' : κ} (h : k' ≠ k) (v : α) (l : List (κ × α)) :
    lookup k' (insertEntry k v l) = lookup k' l := by
  have ne : Ranked.rank k ≠ Ranked.rank k' := fun e => h (Ranked.eq_of_rank e.symm)
  induction l with
  | nil => simp [insertEntry, lookup, ne]
  | cons head tail ih =>
    rw [insertEntry]
    split
    · simp [lookup, ne]
    · split
      · rename_i eq
        simp [lookup, eq, ne]
      · simp [lookup, ih]

@[simp] theorem get?_empty (k : κ) : (empty : Table κ α).get? k = none := rfl

@[simp] theorem get?_insert_self (t : Table κ α) (k : κ) (v : α) : (t.insert k v).get? k = some v :=
  lookup_insertEntry_self k v t.entries

theorem get?_insert_ne (t : Table κ α) {k k' : κ} (h : k' ≠ k) (v : α) :
    (t.insert k v).get? k' = t.get? k' :=
  lookup_insertEntry_ne h v t.entries

theorem lookup_filter_self (k : κ) (l : List (κ × α)) :
    lookup k (l.filter fun e => Ranked.rank e.1 ≠ Ranked.rank k) = none := by
  induction l with
  | nil => rfl
  | cons head tail ih =>
    rw [List.filter_cons]
    split
    · rename_i ne
      have : Ranked.rank head.1 ≠ Ranked.rank k := by simpa using ne
      rw [lookup, if_neg this, ih]
    · exact ih

theorem lookup_filter_ne {k k' : κ} (h : k' ≠ k) (l : List (κ × α)) :
    lookup k' (l.filter fun e => Ranked.rank e.1 ≠ Ranked.rank k) = lookup k' l := by
  have ne : Ranked.rank k ≠ Ranked.rank k' := fun e => h (Ranked.eq_of_rank e.symm)
  induction l with
  | nil => rfl
  | cons head tail ih =>
    rw [List.filter_cons]
    split
    · rw [lookup, lookup, ih]
    · rename_i eq
      have : Ranked.rank head.1 = Ranked.rank k := by simpa using eq
      rw [lookup, this, if_neg ne, ih]

@[simp] theorem get?_erase_self (t : Table κ α) (k : κ) : (t.erase k).get? k = none :=
  lookup_filter_self k t.entries

theorem get?_erase_ne (t : Table κ α) {k k' : κ} (h : k' ≠ k) :
    (t.erase k).get? k' = t.get? k' :=
  lookup_filter_ne h t.entries

end Table

/-- A finite set of statement ids, ascending. -/
structure IdSet where
  toList : List StatementId
  ascending : toList.Pairwise (· < ·)
deriving DecidableEq

namespace IdSet

/-- Put an id in its place in an ascending list, unless it is there. -/
def insertSorted (x : StatementId) : List StatementId → List StatementId
  | [] => [x]
  | y :: rest =>
    if x < y then x :: y :: rest
    else if x = y then y :: rest
    else y :: insertSorted x rest

theorem mem_insertSorted {x z : StatementId} {l : List StatementId} :
    z ∈ insertSorted x l ↔ z = x ∨ z ∈ l := by
  induction l with
  | nil => simp [insertSorted]
  | cons y rest ih =>
    rw [insertSorted]
    split
    · simp
    · split
      · rename_i eq
        subst eq
        simp
      · simp only [List.mem_cons, ih]
        constructor
        · rintro (h | h | h)
          · exact Or.inr (Or.inl h)
          · exact Or.inl h
          · exact Or.inr (Or.inr h)
        · rintro (h | h | h)
          · exact Or.inr (Or.inl h)
          · exact Or.inl h
          · exact Or.inr (Or.inr h)

theorem pairwise_insertSorted {x : StatementId} {l : List StatementId} (h : l.Pairwise (· < ·)) :
    (insertSorted x l).Pairwise (· < ·) := by
  induction l with
  | nil => simp [insertSorted]
  | cons y rest ih =>
    have above := (List.pairwise_cons.1 h).1
    have tail := (List.pairwise_cons.1 h).2
    rw [insertSorted]
    split
    · rename_i lt
      refine List.pairwise_cons.2 ⟨fun z hz => ?_, h⟩
      rcases List.mem_cons.1 hz with rfl | hz
      · exact lt
      · exact Nat.lt_trans lt (above z hz)
    · split
      · exact h
      · rename_i ge ne
        refine List.pairwise_cons.2 ⟨fun z hz => ?_, ih tail⟩
        rcases mem_insertSorted.1 hz with rfl | hz
        · exact Nat.lt_of_le_of_ne (Nat.le_of_not_lt ge) fun e =>
            ne (StatementId.eq_of_raw e.symm)
        · exact above z hz

def empty : IdSet := ⟨[], List.Pairwise.nil⟩

instance : EmptyCollection IdSet := ⟨empty⟩

instance : Inhabited IdSet := ⟨empty⟩

instance : Membership StatementId IdSet := ⟨fun s x => x ∈ s.toList⟩

instance (x : StatementId) (s : IdSet) : Decidable (x ∈ s) :=
  inferInstanceAs (Decidable (x ∈ s.toList))

def insert (s : IdSet) (x : StatementId) : IdSet :=
  ⟨insertSorted x s.toList, pairwise_insertSorted s.ascending⟩

def singleton (x : StatementId) : IdSet := empty.insert x

def insertAll (s : IdSet) (xs : List StatementId) : IdSet := xs.foldl insert s

def ofList (xs : List StatementId) : IdSet := empty.insertAll xs

def union (s t : IdSet) : IdSet := s.insertAll t.toList

def filter (s : IdSet) (p : StatementId → Bool) : IdSet :=
  ⟨s.toList.filter p, s.ascending.filter p⟩

def size (s : IdSet) : Nat := s.toList.length

def isEmpty (s : IdSet) : Bool := s.toList.isEmpty

@[simp] theorem mem_toList {x : StatementId} {s : IdSet} : x ∈ s.toList ↔ x ∈ s := Iff.rfl

@[simp] theorem mem_insert {x y : StatementId} {s : IdSet} : y ∈ s.insert x ↔ y = x ∨ y ∈ s :=
  mem_insertSorted

@[simp] theorem mem_insertAll {y : StatementId} {s : IdSet} {xs : List StatementId} :
    y ∈ s.insertAll xs ↔ y ∈ xs ∨ y ∈ s := by
  induction xs generalizing s with
  | nil => simp [insertAll]
  | cons x rest ih =>
    rw [insertAll, List.foldl_cons, ← insertAll, ih, mem_insert, List.mem_cons]
    constructor
    · rintro (h | h | h)
      · exact Or.inl (Or.inr h)
      · exact Or.inl (Or.inl h)
      · exact Or.inr h
    · rintro ((h | h) | h)
      · exact Or.inr (Or.inl h)
      · exact Or.inl h
      · exact Or.inr (Or.inr h)

end IdSet

end StatementGraph
