import StatementGraph.Proofs.Deletion

namespace StatementGraph

namespace Graph

variable {G : Graph} {a b c x : StatementId}

theorem Within.comparable (ha : G.Within x a) (hb : G.Within x b) :
    G.Within a b ∨ G.Within b a := by
  apply Relation.ReflTransGen.total_of_right_unique _ ha hb
  intro y o o' ho ho'
  exact Option.some.inj (ho.symm.trans ho')

theorem Forest.disjoint (hf : G.Forest) (ha : G.ownerOf a = some c) (hb : G.ownerOf b = some c)
    (hne : a ≠ b) (hxa : G.Within x a) : ¬G.Within x b := by
  have hinside (y z : StatementId) (hy : G.ownerOf y = some c) (hz : G.ownerOf z = some c)
      (hyz : y ≠ z) : ¬G.Within y z := by
    intro hw
    rcases Relation.ReflTransGen.cases_head hw with heq | ⟨o, ho, hw⟩
    · exact hyz heq
    · cases hy.symm.trans ho
      exact hf.not_within (hf.owner hz).1 hw
  intro hxb
  rcases hxa.comparable hxb with hw | hw
  · exact hinside a b ha hb hne hw
  · exact hinside b a hb ha (Ne.symm hne) hw

end Graph

namespace Store

variable {s : Store} {l : List StatementId} {x : StatementId}

/-- What a statement depends on, unless it is an assumption, which comes with its context. -/
def neededBy (s : Store) (x : StatementId) : List StatementId :=
  match s.get? x with
  | some st => if st.isAssumption then [] else st.dependencies.toList
  | none => []

def InOrder (s : Store) (l : List StatementId) : Prop :=
  l.Pairwise fun a b => ∀ x ∈ (s.subtree a).toList, ∀ d ∈ s.neededBy x, d ∉ s.subtree b

instance : Decidable (s.InOrder l) :=
  inferInstanceAs (Decidable (l.Pairwise fun a b =>
    ∀ x ∈ (s.subtree a).toList, ∀ d ∈ s.neededBy x, d ∉ s.subtree b))

theorem mem_neededBy {d : StatementId} : d ∈ s.neededBy x ↔
    ∃ st, s.get? x = some st ∧ st.isAssumption = false ∧ d ∈ st.dependencies := by
  rw [neededBy]
  cases s.get? x with
  | none => simp
  | some st => cases hst : st.isAssumption <;> simp [hst, IdSet.mem_toList]

theorem inOrder_iff (hi : s.Indexed) : s.InOrder l ↔
    l.Pairwise fun a b => ∀ d, s.TreeNeeds a d → ¬s.graph.Within d b := by
  apply iff_of_eq
  rw [InOrder]
  congr 1
  funext a b
  simp only [IdSet.mem_toList, mem_subtree hi, mem_neededBy, TreeNeeds, eq_iff_iff]
  constructor
  · rintro h d ⟨x, st, hst, hplain, hw, hd⟩
    exact h x hw d ⟨st, hst, hplain, hd⟩
  · rintro h x hw d ⟨st, hst, hplain, hd⟩
    exact h d ⟨x, st, hst, hplain, hw, hd⟩

end Store

namespace Removal

open Engine Store

variable {t : TransactionId} {H : Graph} {D : Discipline} {e : Engine} {r : Removal}
  {l : List StatementId} {a top d : StatementId}

section RemoveTree

variable (h : Cut t H e r) (hr : r.engine.store.graph.Rooted)
  (hleft : ∀ y st, (r.removeTree t top).engine.store.get? y = some st ↔
    r.engine.store.get? y = some st ∧ ¬r.engine.store.graph.Within y top)

include h hr hleft

theorem Cut.live_removeTree : (r.removeTree t top).engine.store.graph.Live d ↔
    r.engine.store.graph.Live d ∧ ¬e.store.graph.Within d top := by
  simp only [live_iff, hleft]
  constructor
  · rintro ⟨st, hst, hout⟩
    refine ⟨⟨st, hst⟩, fun hw => hout ?_⟩
    exact (h.graph_sub.within_of hr (graph_of_get? hst) hw).1
  · rintro ⟨⟨st, hst⟩, hout⟩
    exact ⟨st, hst, fun hw => hout (h.graph_sub.within hw)⟩

theorem Cut.treeNeeds_removeTree
    (hdisjoint : ∀ x, e.store.graph.Within x top → ¬e.store.graph.Within x a) :
    (r.removeTree t top).engine.store.TreeNeeds a d ↔ r.engine.store.TreeNeeds a d := by
  have hsub := sub_removeTree hleft
  constructor
  · rintro ⟨x, st, hst, hplain, hw, hd⟩
    exact ⟨x, st, ((hleft x st).1 hst).1, hplain, hsub.within hw, hd⟩
  · rintro ⟨x, st, hst, hplain, hw, hd⟩
    have hst' := (hleft x st).2 ⟨hst, fun htop =>
      hdisjoint x (h.graph_sub.within htop) (h.graph_sub.within hw)⟩
    refine ⟨x, st, hst', hplain, ?_, hd⟩
    exact (hsub.within_of (rooted_removeTree hr hleft) (graph_of_get? hst') hw).1

end RemoveTree

theorem Cut.undoable_removeTrees (h : Cut t H e r) (hs : Sound D t H e)
    (hr : r.engine.store.graph.Rooted)
    (hl : ∀ x ∈ l, ∀ st, r.engine.store.get? x = some st → st.isAssumption = false)
    (hdisjoint : l.Pairwise fun a b => ∀ x, e.store.graph.Within x a → ¬e.store.graph.Within x b) :
    (l.foldl (Removal.removeTree t) r).Undoable ↔ r.Undoable ∧
      l.Pairwise (fun a b => ∀ d, r.engine.store.TreeNeeds b d → ¬e.store.graph.Within d a) ∧
      ∀ a ∈ l, ∀ d, r.engine.store.TreeNeeds a d → r.engine.store.graph.Live d := by
  induction l generalizing r with
  | nil => simp
  | cons top rest ih =>
    obtain ⟨hone, hleft⟩ := h.removeTree hs hr (hl top List.mem_cons_self)
    obtain ⟨hfirst, hothers⟩ := List.pairwise_cons.1 hdisjoint
    have hneeds (a : StatementId) (ha : a ∈ rest) (d : StatementId) :
        (r.removeTree t top).engine.store.TreeNeeds a d ↔ r.engine.store.TreeNeeds a d :=
      h.treeNeeds_removeTree hr hleft (hfirst a ha)
    have hpairs : rest.Pairwise (fun a b => ∀ d,
          (r.removeTree t top).engine.store.TreeNeeds b d → ¬e.store.graph.Within d a) ↔
        rest.Pairwise (fun a b => ∀ d,
          r.engine.store.TreeNeeds b d → ¬e.store.graph.Within d a) := by
      apply List.Pairwise.iff_of_mem
      intro a b _ hb
      simp only [hneeds b hb]
    have hlater : (∀ a ∈ rest, ∀ d, (r.removeTree t top).engine.store.TreeNeeds a d →
          (r.removeTree t top).engine.store.graph.Live d) ↔
        (∀ a ∈ rest, ∀ d, r.engine.store.TreeNeeds a d → ¬e.store.graph.Within d top) ∧
          ∀ a ∈ rest, ∀ d, r.engine.store.TreeNeeds a d → r.engine.store.graph.Live d := by
      simp only [← forall₂_and]
      refine forall₂_congr fun a ha => forall_congr' fun d => ?_
      rw [hneeds a ha, h.live_removeTree hr hleft, and_comm, imp_and]
    rw [List.foldl_cons, ih hone (rooted_removeTree hr hleft) _ hothers,
      h.undoable_removeTree hs hr (hl top List.mem_cons_self), List.pairwise_cons,
      List.forall_mem_cons, hpairs, hlater]
    · constructor
      · rintro ⟨⟨hundo, hhere⟩, hpairs, hout, hlive⟩
        exact ⟨hundo, ⟨hout, hpairs⟩, hhere, hlive⟩
      · rintro ⟨hundo, ⟨hout, hpairs⟩, hhere, hlive⟩
        exact ⟨⟨hundo, hhere⟩, hpairs, hout, hlive⟩
    · intro x hx st hst
      exact hl x (List.mem_cons_of_mem _ hx) st ((hleft x st).1 hst).1

theorem undoable_recheck (hi : r.engine.store.Indexed) : (r.recheck t).Undoable ↔ r.Undoable := by
  rw [Undoable, recheck_fields.1, graph_recheck hi, Undoable]

end Removal

namespace Engine

open Store Removal

variable {t : TransactionId} {H : Graph} {D : Discipline} {e : Engine} {w : Removal}
  {context root : StatementId} {ids : List StatementId}

/-- Statements that are removed together can come back exactly if their trees are in order. -/
theorem Clears.undoable_iff (hs : Sound D t H e) (h : Clears t context ids e w) :
    w.Undoable ↔ e.store.InOrder (e.store.dependencySorted ids false) := by
  have hm := hs.maintained
  have harranged : Walk.Arranged _ (e.store.dependencySorted ids false) :=
    arranged_dependencySorted hs.lawful hm.sub hm.closed.owner
  have hremovable : e.store.Removable (e.store.dependencySorted ids false).reverse :=
    h.removable.congr fun _ => mem_reverse_dependencySorted
  have hdisjoint : (e.store.dependencySorted ids false).reverse.Pairwise fun a b =>
      ∀ x, e.store.graph.Within x a → ¬e.store.graph.Within x b := by
    refine (List.nodup_reverse.2 harranged.nodup).imp_of_mem fun {a b} ha hb hne x => ?_
    exact (hm.forest hs.lawful).disjoint (h.owner a (mem_reverse_dependencySorted.1 ha))
      (h.owner b (mem_reverse_dependencySorted.1 hb)) hne
  rw [h.work, undoable_recheck (cut_removeTrees hs hremovable).1.indexed,
    (cut_start hs).undoable_removeTrees hs hm.closed.owner _ hdisjoint, inOrder_iff hm.indexed,
    List.pairwise_reverse]
  · refine ⟨fun hall => hall.2.1, fun hpairs => ⟨undoable_start, hpairs, ?_⟩⟩
    rintro a - d ⟨x, st, hst, -, -, hd⟩
    exact hm.closed.dependency x _ d (graph_of_get? hst) hd
  · intro x hx st hst
    obtain ⟨st', hst', hplain⟩ := hremovable.plain x hx
    cases hst.symm.trans hst'
    exact hplain

theorem Uproots.undoable (hs : Sound D t H e) (h : Uproots t root e w) : w.Undoable := by
  have hm := hs.maintained
  obtain ⟨st, hst, hplain⟩ := h.removable.plain root (List.mem_singleton_self root)
  rw [h.work, (cut_start hs).undoable_removeTree hs hm.closed.owner]
  · refine ⟨undoable_start, ?_⟩
    rintro d ⟨x, st, hst, -, -, hd⟩
    exact hm.closed.dependency x _ d (graph_of_get? hst) hd
  · intro st' hst'
    cases hst.symm.trans hst'
    exact hplain

theorem Cascades.undoable (hs : Sound D t H e) (h : Cascades t e w) : w.Undoable := by
  obtain ⟨target, st, hst, hplain, rfl⟩ := h
  obtain ⟨visited, -, hdone⟩ := cascading_start hs hst hplain
  exact (undoable_recheck hdone.cut.indexed).2 hdone.undoable

end Engine

end StatementGraph
