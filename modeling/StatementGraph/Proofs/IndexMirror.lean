import StatementGraph.Proofs.Graph
import StatementGraph.Proofs.Tables
import StatementGraph.Proofs.TermEquality
import StatementGraph.Store

namespace StatementGraph

namespace Postings

section Filing

variable {κ : Type} [BEq κ] {p : Postings κ} {key : κ} {x : StatementId} {e : κ × StatementId}

theorem mem_ids : x ∈ p.ids key ↔ ∃ k, (k, x) ∈ p ∧ (k == key) = true := by
  rw [ids, IdSet.mem_toList, IdSet.mem_ofList, List.mem_map]
  constructor
  · rintro ⟨⟨k, y⟩, he, rfl⟩
    exact ⟨k, List.mem_filter.1 he⟩
  · rintro ⟨k, he, hk⟩
    exact ⟨(k, x), List.mem_filter.2 ⟨he, hk⟩, rfl⟩

theorem mem_unfile : e ∈ p.unfile key x ↔ e ∈ p ∧ ¬((e.1 == key) = true ∧ e.2 = x) := by
  rw [unfile, List.mem_filter, Bool.not_eq_true', ← Bool.not_eq_true, Bool.and_eq_true,
    decide_eq_true_eq]

theorem mem_file_of_absent (h : ∀ k, (k, x) ∉ p) : e ∈ p.file key x ↔ e = (key, x) ∨ e ∈ p := by
  have hany : (p.any fun e => e.1 == key && e.2 = x) = false := by
    rw [List.any_eq_false]
    rintro ⟨k, y⟩ he hk
    simp only [Bool.and_eq_true, decide_eq_true_eq] at hk
    exact h k (hk.2 ▸ he)
  rw [file, hany, if_neg Bool.false_ne_true, List.mem_cons]

theorem mem_file [LawfulBEq κ] : e ∈ p.file key x ↔ e = (key, x) ∨ e ∈ p := by
  rw [file]
  split
  · rename_i hany
    obtain ⟨⟨k, y⟩, he, hk⟩ := List.any_eq_true.1 hany
    simp only [Bool.and_eq_true, beq_iff_eq, decide_eq_true_eq] at hk
    obtain ⟨rfl, rfl⟩ := hk
    constructor
    · exact Or.inr
    · rintro (rfl | h)
      · exact he
      · exact h
  · exact List.mem_cons

theorem mem_foldl_file [LawfulBEq κ] {keys : List κ} :
    e ∈ keys.foldl (fun p k => file p k x) p ↔ e ∈ p ∨ e.2 = x ∧ e.1 ∈ keys := by
  induction keys generalizing p with
  | nil => simp
  | cons k rest ih =>
    obtain ⟨k', y⟩ := e
    rw [List.foldl_cons, ih, mem_file, List.mem_cons, Prod.mk.injEq]
    constructor
    · rintro ((⟨h, h'⟩ | h) | ⟨h, h'⟩)
      · exact Or.inr ⟨h', Or.inl h⟩
      · exact Or.inl h
      · exact Or.inr ⟨h, Or.inr h'⟩
    · rintro (h | ⟨h, h' | h'⟩)
      · exact Or.inl (Or.inr h)
      · exact Or.inl (Or.inl ⟨h', h⟩)
      · exact Or.inr ⟨h, h'⟩

theorem mem_foldl_unfile [LawfulBEq κ] {keys : List κ} :
    e ∈ keys.foldl (fun p k => unfile p k x) p ↔ e ∈ p ∧ ¬(e.2 = x ∧ e.1 ∈ keys) := by
  induction keys generalizing p with
  | nil => simp
  | cons k rest ih =>
    rw [List.foldl_cons, ih, mem_unfile, beq_iff_eq, List.mem_cons]
    constructor
    · rintro ⟨⟨he, hk⟩, hrest⟩
      refine ⟨he, ?_⟩
      rintro ⟨hx, h | h⟩
      · exact hk ⟨h, hx⟩
      · exact hrest ⟨hx, h⟩
    · rintro ⟨he, hne⟩
      exact ⟨⟨he, fun h => hne ⟨h.2, Or.inl h.1⟩⟩, fun h => hne ⟨h.1, Or.inr h.2⟩⟩

end Filing

section Mirroring

variable {κ : Type} {p p' : Postings κ} {x : StatementId} {filed : Content → κ → Prop}
  {G : Graph} {c : Content}

/-- The postings hold an id under exactly the keys of the statement with that id. -/
def Mirrors (p : Postings κ) (filed : Content → κ → Prop) (G : Graph) : Prop :=
  ∀ k x, (k, x) ∈ p ↔ ∃ c, G x = some c ∧ filed c k

theorem Mirrors.absent (h : p.Mirrors filed G) (hx : G x = none) (k : κ) : (k, x) ∉ p := by
  intro hk
  obtain ⟨c, hc, _⟩ := (h k x).1 hk
  rw [hx] at hc
  cases hc

theorem Mirrors.insert (h : p.Mirrors filed G) (hx : G x = none)
    (hp : ∀ e, e ∈ p' ↔ e ∈ p ∨ e.2 = x ∧ filed c e.1) :
    p'.Mirrors filed (G.set x (some c)) := by
  intro k y
  rw [hp]
  by_cases hy : y = x
  · subst hy
    rw [Graph.set_self]
    constructor
    · rintro (hk | ⟨_, hk⟩)
      · exact absurd hk (h.absent hx k)
      · exact ⟨c, rfl, hk⟩
    · rintro ⟨_, ⟨rfl⟩, hk⟩
      exact Or.inr ⟨rfl, hk⟩
  · rw [Graph.set_ne hy, ← h k y]
    simp [hy]

/-- Taking a statement out may look for its keys up to an equality of keys, if it finds them all. -/
theorem Mirrors.remove (found : κ → Prop) (h : p.Mirrors filed G) (hx : G x = some c)
    (hfound : ∀ k, filed c k → found k) (hp : ∀ e, e ∈ p' ↔ e ∈ p ∧ ¬(e.2 = x ∧ found e.1)) :
    p'.Mirrors filed (G.set x none) := by
  intro k y
  rw [hp]
  by_cases hy : y = x
  · subst hy
    rw [Graph.set_self]
    constructor
    · rintro ⟨hk, hne⟩
      obtain ⟨c', hc', hf⟩ := (h k y).1 hk
      rw [hx] at hc'
      cases hc'
      exact absurd ⟨rfl, hfound k hf⟩ hne
    · rintro ⟨_, ⟨⟩, _⟩
  · rw [Graph.set_ne hy, ← h k y]
    simp [hy]

end Mirroring

end Postings

namespace Index

/-- The indexes file each statement where its content says. -/
structure Mirrors (i : Index) (G : Graph) : Prop where
  locals : i.locals.Mirrors (fun c o => c.owner = some o) G
  dependents : i.dependents.Mirrors (fun c d => d ∈ c.dependencies) G
  byTerm : i.byTerm.Mirrors (fun c k => c.owner = some k.1 ∧ c.term = k.2) G
  byConsequent :
    i.byConsequent.Mirrors (fun c t => ∃ data, c.kind = .context data ∧ data.consequent = t) G

variable {i : Index} {G : Graph} {st : Statement}

theorem mirrors_empty : Index.empty.Mirrors fun _ => none where
  locals k x := by simp [empty]
  dependents k x := by simp [empty]
  byTerm k x := by simp [empty]
  byConsequent k x := by simp [empty]

theorem insert_locals : (i.insert st).locals = (i.insertPlace st).locals := by
  obtain ⟨_, owner, _, _, _, name, kind⟩ := st
  cases owner <;> cases kind <;> cases name <;> rfl

theorem insert_byTerm : (i.insert st).byTerm = (i.insertPlace st).byTerm := by
  obtain ⟨_, owner, _, _, _, name, kind⟩ := st
  cases owner <;> cases kind <;> cases name <;> rfl

theorem insert_dependents : (i.insert st).dependents = (i.insertDependencies st).dependents := by
  obtain ⟨_, owner, _, _, _, name, kind⟩ := st
  cases owner <;> cases kind <;> cases name <;> rfl

theorem insert_byConsequent : (i.insert st).byConsequent = (i.insertKind st).byConsequent := by
  obtain ⟨_, owner, _, _, _, name, kind⟩ := st
  cases owner <;> cases kind <;> cases name <;> rfl

theorem remove_locals : (i.remove st).locals = (i.removePlace st).locals := by
  obtain ⟨_, owner, _, _, _, name, kind⟩ := st
  cases owner <;> cases kind <;> cases name <;> rfl

theorem remove_byTerm : (i.remove st).byTerm = (i.removePlace st).byTerm := by
  obtain ⟨_, owner, _, _, _, name, kind⟩ := st
  cases owner <;> cases kind <;> cases name <;> rfl

theorem remove_dependents : (i.remove st).dependents = (i.removeDependencies st).dependents := by
  obtain ⟨_, owner, _, _, _, name, kind⟩ := st
  cases owner <;> cases kind <;> cases name <;> rfl

theorem remove_byConsequent : (i.remove st).byConsequent = (i.removeKind st).byConsequent := by
  obtain ⟨_, owner, _, _, _, name, kind⟩ := st
  cases owner <;> cases kind <;> cases name <;> rfl

theorem Mirrors.insert (h : i.Mirrors G) (hx : G st.id = none) :
    (i.insert st).Mirrors (G.set st.id (some st.content)) where
  locals := by
    apply h.locals.insert hx
    intro e
    rw [insert_locals, insertPlace, Statement.content]
    cases ho : st.owner with
    | none => simp
    | some o =>
      rw [Postings.mem_file]
      grind
  dependents := by
    apply h.dependents.insert hx
    intro e
    rw [insert_dependents, insertDependencies]
    exact Postings.mem_foldl_file
  byTerm := by
    apply h.byTerm.insert hx
    intro e
    rw [insert_byTerm, insertPlace, Statement.content]
    cases ho : st.owner with
    | none => simp
    | some o =>
      rw [Postings.mem_file_of_absent (h.byTerm.absent hx)]
      grind
  byConsequent := by
    apply h.byConsequent.insert hx
    intro e
    rw [insert_byConsequent, insertKind, Statement.content]
    cases hk : st.kind with
    | context data =>
      rw [Postings.mem_file_of_absent (h.byConsequent.absent hx)]
      grind
    | _ => simp

theorem Mirrors.remove (h : i.Mirrors G) (hx : G st.id = some st.content) :
    (i.remove st).Mirrors (G.set st.id none) where
  locals := by
    apply h.locals.remove _ hx fun k hk => hk
    intro e
    rw [remove_locals, removePlace, Statement.content]
    cases ho : st.owner with
    | none => simp
    | some o =>
      rw [Postings.mem_unfile]
      grind
  dependents := by
    apply h.dependents.remove _ hx fun k hk => hk
    intro e
    rw [remove_dependents, removeDependencies]
    exact Postings.mem_foldl_unfile
  byTerm := by
    apply h.byTerm.remove (fun k => st.owner = some k.1 ∧ (k.2 == st.term) = true) hx
    · rintro ⟨o, t⟩ ⟨ho, rfl⟩
      exact ⟨ho, Term.beq_refl _⟩
    · intro e
      rw [remove_byTerm, removePlace]
      cases ho : st.owner with
      | none => simp
      | some o =>
        have hkey : (e.1 == (o, st.term)) = true ↔ e.1.1 = o ∧ (e.1.2 == st.term) = true := by
          change (e.1.1 == o && e.1.2 == st.term) = true ↔ _
          rw [Bool.and_eq_true, beq_iff_eq]
        rw [Postings.mem_unfile, hkey]
        grind
  byConsequent := by
    apply h.byConsequent.remove
      (fun t => ∃ data, st.kind = .context data ∧ (t == data.consequent) = true) hx
    · rintro t ⟨data, hk, rfl⟩
      exact ⟨data, hk, Term.beq_refl _⟩
    · intro e
      rw [remove_byConsequent, removeKind]
      cases hk : st.kind with
      | context data =>
        rw [Postings.mem_unfile]
        grind
      | _ => simp

end Index

namespace Store

variable {s : Store} {x y : StatementId} {st : Statement}

def graph (s : Store) : Graph := fun x => (s.get? x).map Statement.content

theorem graph_eq_some {c : Content} :
    s.graph x = some c ↔ ∃ st, s.get? x = some st ∧ st.content = c := Option.map_eq_some_iff

theorem graph_of_get? (h : s.get? x = some st) : s.graph x = some st.content := by
  rw [graph, h]
  rfl

/-- Each record stands under its own id, and the indexes mirror the records. -/
structure Indexed (s : Store) : Prop where
  keyed : ∀ x st, s.get? x = some st → st.id = x
  mirrors : s.index.Mirrors s.graph

theorem get?_write : (s.write st).get? y = if y = st.id then some st else s.get? y :=
  Table.get?_insert

theorem authority?_setAuthority {a : Option Authority} :
    (s.setAuthority x a).authority? y = if y = x then a else s.authority? y := Table.get?_set

theorem get?_erase : (s.erase x).get? y = if y = x then none else s.get? y := by
  rw [erase]
  split
  · exact Table.get?_erase
  · rename_i hnone
    split
    · rename_i he
      rw [he]
      exact hnone
    · rfl

theorem get?_setProved {flag : Bool} : (s.setProved x flag).get? y =
    if y = x then (s.get? x).map fun st => { st with proved := flag } else s.get? y := by
  rw [setProved]
  split
  · rename_i st hst
    rw [hst]
    exact Table.get?_insert
  · rename_i hnone
    rw [hnone]
    split
    · rename_i he
      rw [he]
      exact hnone
    · rfl

theorem graph_write : (s.write st).graph = s.graph.set st.id (some st.content) := by
  funext y
  rw [graph, get?_write, Graph.set]
  split
  · rfl
  · rfl

theorem graph_erase : (s.erase x).graph = s.graph.set x none := by
  funext y
  rw [graph, get?_erase, Graph.set]
  split
  · rfl
  · rfl

theorem graph_setProved {flag : Bool} : (s.setProved x flag).graph = s.graph := by
  funext y
  rw [graph, get?_setProved, graph]
  split
  · rename_i he
    subst he
    rw [Option.map_map]
    rfl
  · rfl

theorem Indexed.write (h : s.Indexed) : (s.write st).Indexed where
  keyed := by
    intro y st' hy
    rw [get?_write] at hy
    split at hy
    · rename_i he
      cases hy
      exact he.symm
    · exact h.keyed y st' hy
  mirrors := by
    rw [graph_write]
    change (Index.insert _ st).Mirrors _
    cases hold : s.get? st.id with
    | none =>
      exact h.mirrors.insert (by rw [graph, hold]; rfl)
    | some old =>
      have hid := h.keyed _ _ hold
      have hgone : (s.index.remove old).Mirrors (s.graph.set st.id none) := by
        rw [← hid]
        exact h.mirrors.remove (by rw [hid]; exact graph_of_get? hold)
      have hnew : ((s.index.remove old).insert st).Mirrors _ := hgone.insert Graph.set_self
      rw [Graph.set_set] at hnew
      exact hnew

theorem Indexed.erase (h : s.Indexed) : (s.erase x).Indexed where
  keyed := by
    intro y st' hy
    rw [get?_erase] at hy
    split at hy
    · cases hy
    · exact h.keyed y st' hy
  mirrors := by
    rw [graph_erase, Store.erase]
    cases hold : s.get? x with
    | none =>
      rw [Graph.set_of_none (by rw [graph, hold]; rfl)]
      exact h.mirrors
    | some old =>
      have hid := h.keyed _ _ hold
      rw [← hid]
      exact h.mirrors.remove (by rw [hid]; exact graph_of_get? hold)

theorem Indexed.setProved {flag : Bool} (h : s.Indexed) : (s.setProved x flag).Indexed where
  keyed := by
    intro y st' hy
    rw [get?_setProved] at hy
    split at hy
    · rename_i he
      obtain ⟨st, hst, rfl⟩ := Option.map_eq_some_iff.1 hy
      rw [he]
      exact h.keyed x st hst
    · exact h.keyed y st' hy
  mirrors := by
    rw [graph_setProved, Store.setProved]
    split <;> exact h.mirrors

theorem Indexed.of_eq {s' : Store} (h : s.Indexed) (hs : s'.statements = s.statements)
    (hi : s'.index = s.index) : s'.Indexed := by
  have hget (x : StatementId) : s'.get? x = s.get? x := by rw [get?, hs, get?]
  have hgraph : s'.graph = s.graph := funext fun x => by rw [graph, hget, graph]
  refine ⟨fun x st hx => h.keyed x st (hget x ▸ hx), ?_⟩
  rw [hi, hgraph]
  exact h.mirrors

theorem indexed_empty : ({} : Store).Indexed where
  keyed _ _ h := by cases h
  mirrors := Index.mirrors_empty

section Queries

variable (h : s.Indexed)

include h

theorem Indexed.mem_localsOf : y ∈ s.localsOf x ↔ s.graph.ownerOf y = some x := by
  rw [localsOf, Postings.mem_ids, Graph.ownerOf_eq]
  constructor
  · rintro ⟨k, hk, he⟩
    rw [beq_iff_eq] at he
    rw [he] at hk
    exact (h.mirrors.locals x y).1 hk
  · intro hy
    exact ⟨x, (h.mirrors.locals x y).2 hy, beq_iff_eq.2 rfl⟩

theorem Indexed.localsOf_eq {s' : Store} (h' : s'.Indexed)
    (he : ∀ y, s.graph.ownerOf y = some x ↔ s'.graph.ownerOf y = some x) :
    s.localsOf x = s'.localsOf x :=
  IdSet.toList_eq fun y => (h.mem_localsOf.trans (he y)).trans h'.mem_localsOf.symm

theorem Indexed.mem_dependentsOf :
    y ∈ s.dependentsOf x ↔ ∃ c, s.graph y = some c ∧ x ∈ c.dependencies := by
  rw [dependentsOf, Postings.mem_ids]
  constructor
  · rintro ⟨k, hk, he⟩
    rw [beq_iff_eq] at he
    rw [he] at hk
    exact (h.mirrors.dependents x y).1 hk
  · intro hy
    exact ⟨x, (h.mirrors.dependents x y).2 hy, beq_iff_eq.2 rfl⟩

theorem Indexed.mem_localsByTerm {t : Term} : y ∈ s.localsByTerm x t ↔
    ∃ c, s.graph y = some c ∧ c.owner = some x ∧ (c.term == t) = true := by
  rw [localsByTerm, Postings.mem_ids]
  constructor
  · rintro ⟨⟨o, u⟩, hk, he⟩
    change (o == x && u == t) = true at he
    rw [Bool.and_eq_true, beq_iff_eq] at he
    obtain ⟨c, hc, ho, rfl⟩ := (h.mirrors.byTerm (o, u) y).1 hk
    exact ⟨c, hc, he.1 ▸ ho, he.2⟩
  · rintro ⟨c, hc, ho, ht⟩
    refine ⟨(x, c.term), (h.mirrors.byTerm (x, c.term) y).2 ⟨c, hc, ho, rfl⟩, ?_⟩
    change (x == x && c.term == t) = true
    rw [ht, Bool.and_true, beq_iff_eq]

theorem Indexed.mem_contextsByConsequent {t : Term} : y ∈ s.contextsByConsequent t ↔
    ∃ c data, s.graph y = some c ∧ c.kind = .context data ∧ (data.consequent == t) = true := by
  rw [contextsByConsequent, Postings.mem_ids]
  constructor
  · rintro ⟨k, hk, he⟩
    obtain ⟨c, hc, data, hd, rfl⟩ := (h.mirrors.byConsequent k y).1 hk
    exact ⟨c, data, hc, hd, he⟩
  · rintro ⟨c, data, hc, hd, he⟩
    exact ⟨data.consequent, (h.mirrors.byConsequent _ y).2 ⟨c, hc, data, hd, rfl⟩, he⟩

end Queries

end Store

end StatementGraph
