import StatementGraph.Proofs.Erasing
import StatementGraph.Proofs.Ordering

namespace StatementGraph

def Graph.Live (G : Graph) (x : StatementId) : Prop := ∃ c, G x = some c

def Statement.Needs (st : Statement) (y : StatementId) : Prop :=
  st.owner = some y ∨ y ∈ st.dependencies

/-- The statements of a list can come back one after the other: each finds what it refers to. -/
def Restorable : (StatementId → Prop) → List Deleted → Prop
  | _, [] => True
  | live, d :: rest =>
    (∀ y, d.statement.Needs y → live y) ∧ Restorable (fun y => live y ∨ y ∈ d.ids) rest

theorem Restorable.mono {live live' : StatementId → Prop} {l : List Deleted}
    (h : Restorable live l) (hlive : ∀ y, live y → live' y) : Restorable live' l := by
  induction l generalizing live live' with
  | nil => trivial
  | cons d rest ih =>
    refine ⟨fun y hy => hlive y (h.1 y hy), ?_⟩
    apply ih h.2
    intro y hy
    exact hy.imp_left (hlive y)

theorem restorable_congr {live live' : StatementId → Prop} {l : List Deleted}
    (hlive : ∀ y, live y ↔ live' y) : Restorable live l ↔ Restorable live' l :=
  ⟨fun h => h.mono fun y => (hlive y).1, fun h => h.mono fun y => (hlive y).2⟩

theorem Store.live_iff {s : Store} {x : StatementId} :
    s.graph.Live x ↔ ∃ st, s.get? x = some st := by
  constructor
  · rintro ⟨c, hc⟩
    obtain ⟨st, hst, -⟩ := graph_eq_some.1 hc
    exact ⟨st, hst⟩
  · rintro ⟨st, hst⟩
    exact ⟨st.content, graph_of_get? hst⟩

def Store.TreeNeeds (s : Store) (top d : StatementId) : Prop :=
  ∃ x st, s.get? x = some st ∧ st.isAssumption = false ∧ s.graph.Within x top ∧
    d ∈ st.dependencies

/-- What a statement refers to is older than it, so it neither is the statement nor goes with it. -/
theorem Graph.Lawful.not_mem_ids {H : Graph} {D : Discipline} {st : Statement} {x y : StatementId}
    (h : H.Lawful D) (hx : H x = some st.content) (hy : st.Needs y) : y ∉ x :: st.assumptions := by
  have hlt : y < x := by
    rcases hy with ho | hd
    · exact ((h x _ hx).owner y ho).1
    · exact ((h x _ hx).dependency y hd).1
  intro hmem
  rcases List.mem_cons.1 hmem with rfl | hmem
  · exact Nat.lt_irrefl _ hlt
  · obtain ⟨ca, i, hca, howner, -⟩ := h.inside hx hmem
    exact Nat.lt_irrefl _ (Nat.lt_trans ((h y ca hca).owner x howner).1 hlt)

namespace Removal

open Engine Store

variable {t : TransactionId} {H : Graph} {D : Discipline} {e : Engine} {r : Removal}
  {top x y : StatementId} {st : Statement} {l : List StatementId}

def Undoable (r : Removal) : Prop := Restorable r.engine.store.graph.Live r.batch.reverse

theorem undoable_start : Undoable { engine := e } := trivial

theorem dead_removeOne (hx : ¬r.engine.store.graph.Live x) : r.removeOne t x = r := by
  rw [removeOne]
  split
  case h_1 => rfl
  case h_2 st hst => exact absurd (live_iff.2 ⟨st, hst⟩) hx

theorem live_removeOne (hst : r.engine.store.get? x = some st) :
    (r.removeOne t x).engine.store.graph.Live y ↔
      r.engine.store.graph.Live y ∧ y ∉ x :: st.assumptions := by
  have hbundle : r.engine.store.bundle x = x :: st.assumptions := by
    rw [bundle, hst]
    rfl
  rw [live_iff, live_iff, get?_removeOne, hbundle]
  split
  case isTrue hy => simp [hy]
  case isFalse hy => simp only [hy, not_false_eq_true, and_true]

/-- A statement that goes can come back if what it refers to is there. -/
theorem Cut.undoable_removeOne (h : Cut t H e r) (hs : Sound D t H e)
    (hst : r.engine.store.get? x = some st) :
    (r.removeOne t x).Undoable ↔
      r.Undoable ∧ ∀ y, st.Needs y → r.engine.store.graph.Live y := by
  have hH := h.sub hs x _ (graph_of_get? hst)
  have hids : (r.engine.store.deleted st).ids = x :: st.assumptions := by
    rw [Deleted.ids, deleted, h.indexed.keyed x st hst]
  rw [Undoable, h.batch_removeOne hs hst, List.reverse_append, List.reverse_singleton,
    List.singleton_append, Restorable, and_comm, hids]
  refine and_congr (restorable_congr fun y => ?_) (forall₂_congr fun y hy => ?_)
  · rw [live_removeOne hst]
    constructor
    · rintro (⟨hy, -⟩ | hy)
      · exact hy
      · rw [live_iff]
        apply h.live_bundle hst
        rwa [List.mem_append, List.mem_singleton, or_comm, ← List.mem_cons]
    · intro hy
      by_cases hmem : y ∈ x :: st.assumptions
      · exact Or.inr hmem
      · exact Or.inl ⟨hy, hmem⟩
  · rw [live_removeOne hst]
    exact ⟨And.left, fun hlive => ⟨hlive, hs.lawful.not_mem_ids hH hy⟩⟩

theorem Cut.eq_of_mem_bundle {sy : Statement} (h : Cut t H e r) (hs : Sound D t H e)
    (hst : r.engine.store.get? x = some st) (hsy : r.engine.store.get? y = some sy)
    (hplain : sy.isAssumption = false) (hy : y ∈ r.engine.store.bundle x) : y = x := by
  refine (mem_bundle.1 hy).resolve_right ?_
  rintro ⟨st', hst', hy⟩
  cases hst.symm.trans hst'
  obtain ⟨sa, hsa, -, hassumption⟩ := h.assumption hs hst hy
  cases hsy.symm.trans hsa
  cases hplain.symm.trans hassumption

theorem Cut.undoable_removeList (h : Cut t H e r) (hs : Sound D t H e)
    (hl : ∀ x ∈ l, ∀ st, r.engine.store.get? x = some st → st.isAssumption = false)
    (hsorted : l.Pairwise fun a b => ∀ sb, r.engine.store.get? b = some sb →
      ∀ y ∈ r.engine.store.bundle a, ¬sb.Needs y) :
    (l.foldl (Removal.removeOne t) r).Undoable ↔ r.Undoable ∧ ∀ x ∈ l, ∀ st,
      r.engine.store.get? x = some st → ∀ y, st.Needs y → r.engine.store.graph.Live y := by
  induction l generalizing r with
  | nil => simp
  | cons x rest ih =>
    rw [List.foldl_cons]
    obtain ⟨hfirst, hrest⟩ := List.pairwise_cons.1 hsorted
    cases hst : r.engine.store.get? x with
    | none =>
      have hdead : ¬r.engine.store.graph.Live x := by
        rw [live_iff, hst]
        simp
      rw [dead_removeOne hdead, ih h (fun y hy => hl y (List.mem_cons_of_mem _ hy)) hrest,
        List.forall_mem_cons, hst]
      simp
    | some st =>
      have hbundle : r.engine.store.bundle x = x :: st.assumptions := by
        rw [bundle, hst]
        rfl
      have hcut := h.removeOne hs (hl x List.mem_cons_self)
      have hkept (y : StatementId) (sy : Statement) :
          (r.removeOne t x).engine.store.get? y = some sy ↔
            r.engine.store.get? y = some sy ∧ y ∉ r.engine.store.bundle x := by
        rw [get?_removeOne]
        split
        case isTrue hy => simp [hy]
        case isFalse hy => simp [hy]
      rw [ih hcut, h.undoable_removeOne hs hst, and_assoc, List.forall_mem_cons]
      · refine and_congr_right fun _ => ⟨?_, ?_⟩
        · rintro ⟨hready, hothers⟩
          have hready' (st' : Statement) (hst' : r.engine.store.get? x = some st') :
              ∀ y, st'.Needs y → r.engine.store.graph.Live y := by
            cases hst.symm.trans hst'
            exact hready
          refine ⟨hready', ?_⟩
          intro z hz sz hsz y hy
          by_cases hmem : z ∈ r.engine.store.bundle x
          · have hplain := hl z (List.mem_cons_of_mem _ hz) sz hsz
            exact hready' sz (h.eq_of_mem_bundle hs hst hsz hplain hmem ▸ hsz) y hy
          · have hlive := hothers z hz sz ((hkept z sz).2 ⟨hsz, hmem⟩) y hy
            exact ((live_removeOne hst).1 hlive).1
        · rintro ⟨hready, hothers⟩
          refine ⟨hready st hst, ?_⟩
          intro z hz sz hsz y hy
          obtain ⟨hsz, -⟩ := (hkept z sz).1 hsz
          refine (live_removeOne hst).2 ⟨hothers z hz sz hsz y hy, ?_⟩
          rw [← hbundle]
          exact fun hmem => hfirst z hz sz hsz y hmem hy
      · intro z hz sz hsz
        exact hl z (List.mem_cons_of_mem _ hz) sz ((hkept z sz).1 hsz).1
      · apply hrest.imp
        intro a b hab sb hsb y hy
        refine hab sb ((hkept b sb).1 hsb).1 y ?_
        rcases mem_bundle.1 hy with rfl | ⟨sa, hsa, hy⟩
        · exact mem_bundle.2 (Or.inl rfl)
        · exact mem_bundle.2 (Or.inr ⟨sa, ((hkept a sa).1 hsa).1, hy⟩)

/-- Of a tree, nothing goes while something that refers to it or to its assumptions is there. -/
theorem Cut.sorted_removalOrder (h : Cut t H e r) (hs : Sound D t H e)
    (hr : r.engine.store.graph.Rooted) :
    (r.engine.store.removalOrder top).Pairwise fun a b => ∀ sb,
      r.engine.store.get? b = some sb → ∀ y ∈ r.engine.store.bundle a, ¬sb.Needs y := by
  have hsub := h.sub hs
  have hf := hs.lawful.forest_of_sub hsub hr
  rw [removalOrder, List.pairwise_reverse]
  refine (arranged_dependencySorted hs.lawful hsub hr).sorted.imp_of_mem ?_
  intro b a _ ha hbefore sb hsb y hy hneeds
  apply hbefore
  have hb := hsub b _ (graph_of_get? hsb)
  rw [mem_predecessors hsb]
  refine ⟨mem_dependencySorted.1 ha, ?_⟩
  rcases mem_bundle.1 hy with rfl | ⟨sa, hsa, hy⟩
  · rcases hneeds with ho | hd
    · have howner := Graph.ownerOf_eq.2 ⟨_, graph_of_get? hsb, ho⟩
      exact Or.inr ⟨rfl, mem_ancestors_of_owner hf howner .refl⟩
    · refine Or.inl ⟨hd, ?_⟩
      rintro rfl
      exact Nat.lt_irrefl _ ((hs.lawful y _ hb).dependency y hd).1
  · -- what refers to an assumption of a context is inside the context
    obtain ⟨cy, i, hcy, howner, hk⟩ := hs.lawful.inside (hsub a _ (graph_of_get? hsa)) hy
    rcases hneeds with ho | hd
    · obtain ⟨-, c, data, hc, hdata⟩ := (hs.lawful b _ hb).owner y ho
      cases hcy.symm.trans hc
      cases hk.symm.trans hdata
    · obtain ⟨-, o, ho, cy', o', hcy', ho', hw⟩ := (hs.lawful b _ hb).dependency y hd
      cases hcy.symm.trans hcy'
      cases howner.symm.trans ho'
      obtain ⟨co, hco⟩ := hr b _ o (graph_of_get? hsb) ho
      have howner' := Graph.ownerOf_eq.2 ⟨_, graph_of_get? hsb, ho⟩
      exact Or.inr ⟨rfl, mem_ancestors_of_owner hf howner' (hsub.within_of hr hco hw).1⟩

/-- A tree can come back if all that its statements depend on was there when it went. -/
theorem Cut.undoable_removeTree (h : Cut t H e r) (hs : Sound D t H e)
    (hr : r.engine.store.graph.Rooted)
    (htop : ∀ st, r.engine.store.get? top = some st → st.isAssumption = false) :
    (r.removeTree t top).Undoable ↔
      r.Undoable ∧ ∀ d, r.engine.store.TreeNeeds top d → r.engine.store.graph.Live d := by
  have hplain (x : StatementId) (hx : x ∈ r.engine.store.removalOrder top) (st : Statement)
      (hst : r.engine.store.get? x = some st) :
      r.engine.store.graph.Within x top ∧ st.isAssumption = false := by
    rcases (mem_removalOrder h.indexed).1 hx with rfl | ⟨hw, st', hst', hplain⟩
    · exact ⟨.refl, htop st hst⟩
    · cases hst.symm.trans hst'
      exact ⟨hw, hplain⟩
  rw [Removal.removeTree, h.undoable_removeList hs (fun x hx st hst => (hplain x hx st hst).2)
    (h.sorted_removalOrder hs hr)]
  refine and_congr_right fun _ => ⟨?_, ?_⟩
  · rintro hall d ⟨x, st, hst, hplain, hw, hd⟩
    exact hall x ((mem_removalOrder h.indexed).2 (Or.inr ⟨hw, st, hst, hplain⟩)) st hst d
      (Or.inr hd)
  · intro hall x hx st hst y hy
    rcases hy with ho | hd
    · exact hr x st.content y (graph_of_get? hst) ho
    · obtain ⟨hw, hplain⟩ := hplain x hx st hst
      exact hall y ⟨x, st, hst, hplain, hw, hd⟩

end Removal

end StatementGraph
