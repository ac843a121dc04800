import StatementGraph.Proofs.Operation

namespace StatementGraph

namespace Store

variable {s : Store} {H : Graph} {D : Discipline} {x y : StatementId} {st : Statement}

structure Structured (s : Store) : Prop where
  dependency : ∀ x st d, s.get? x = some st → d ∈ st.dependencies →
    s.contains d = true ∧ d < x ∧ ∃ o, st.owner = some o ∧ s.isVisible d o = true
  root : ∀ x st, s.get? x = some st → st.isRoot = true →
    st.dependencies.isEmpty = true
  owner : ∀ x st o, s.get? x = some st → st.owner = some o →
    o < x ∧ ∃ so, s.get? o = some so ∧ so.isContext = true
  unowned : ∀ x st, s.get? x = some st → (st.owner = none ↔ st.isRoot = true)
  assumption : ∀ x st, s.get? x = some st → ∀ i a, st.assumptions[i]? = some a ↔
    ∃ sa, s.get? a = some sa ∧ sa.owner = some x ∧ sa.kind = .assumption i
  authority : ∀ x a, s.authority? x = some a → a.statement = x ∧ s.contains x = true

def Refers (s : Store) (x y : StatementId) : Prop :=
  ∃ st, s.get? x = some st ∧ (st.owner = some y ∨ y ∈ st.dependencies)

/-- No statement refers to itself, through however many others. -/
theorem Structured.acyclic (h : s.Structured) : ¬Relation.TransGen s.Refers x x := by
  have hlt : ∀ {x y}, Relation.TransGen s.Refers x y → y < x := by
    intro x y hxy
    have hstep : ∀ {x y}, s.Refers x y → y < x := by
      rintro x y ⟨st, hst, ho | hd⟩
      · exact (h.owner x st y hst ho).1
      · exact (h.dependency x st y hst hd).2.1
    induction hxy with
    | single hxy => exact hstep hxy
    | tail _ hyz ih => exact Nat.lt_trans (hstep hyz) ih
  exact fun hx => Nat.lt_irrefl _ (hlt hx)

theorem contains_of_graph {c : Content} (hx : s.graph x = some c) : s.contains x = true := by
  obtain ⟨st, hst, -⟩ := graph_eq_some.1 hx
  exact Table.contains_iff.2 ⟨st, hst⟩

namespace Maintained

variable (h : s.Maintained H) (hH : H.Lawful D)

include h hH

theorem lawfulAt (hst : s.get? x = some st) : H.LawfulAt D x st.content :=
  hH x _ (h.sub x _ (graph_of_get? hst))

theorem dependency_visible {d : StatementId} (hst : s.get? x = some st)
    (hd : d ∈ st.dependencies) :
    s.contains d = true ∧ d < x ∧ ∃ o, st.owner = some o ∧ s.isVisible d o = true := by
  have hx := graph_of_get? hst
  obtain ⟨c, hc⟩ := h.closed.dependency x _ d hx hd
  obtain ⟨o, ho, hsees⟩ := hH.scoped_of_sub h.sub h.closed x _ d hx hd
  exact ⟨contains_of_graph hc, ((h.lawfulAt hH hst).dependency d hd).1, o, ho,
    isVisible_iff.2 hsees⟩

theorem owner_eq_none (hst : s.get? x = some st) : st.owner = none ↔ st.isRoot = true :=
  (h.lawfulAt hH hst).built.owner_eq_none.trans Statement.isRoot_iff.symm

theorem owner_isContext (hst : s.get? x = some st) (ho : st.owner = some y) :
    y < x ∧ ∃ so, s.get? y = some so ∧ so.isContext = true := by
  obtain ⟨hlt, c, data, hc, hk⟩ := h.forest hH x _ y (graph_of_get? hst) ho
  obtain ⟨so, hso, rfl⟩ := graph_eq_some.1 hc
  exact ⟨hlt, so, hso, Statement.isContext_iff.2 ⟨data, hk⟩⟩

theorem getElem?_assumptions {i : Nat} (hst : s.get? x = some st) :
    st.assumptions[i]? = some y ↔
      ∃ sa, s.get? y = some sa ∧ sa.owner = some x ∧ sa.kind = .assumption i := by
  have hx := graph_of_get? hst
  rw [Statement.getElem?_assumptions]
  constructor
  · rintro ⟨data, hk, hi⟩
    obtain ⟨ca, hca, ho, hka⟩ := h.listed hH hx hk hi
    obtain ⟨sa, hsa, rfl⟩ := graph_eq_some.1 hca
    exact ⟨sa, hsa, ho, hka⟩
  · rintro ⟨sa, hsa, ho, hka⟩
    obtain ⟨o, co, data, ho', hco, hk, hi⟩ := hH.assumption (h.sub y _ (graph_of_get? hsa)) hka
    cases ho.symm.trans ho'
    cases (h.sub x _ hx).symm.trans hco
    exact ⟨data, hk, hi⟩

theorem structured : s.Structured where
  dependency _ _ _ hst hd := h.dependency_visible hH hst hd
  root x st hst hroot := by
    refine IdSet.isEmpty_iff.2 fun d hd => ?_
    obtain ⟨-, -, o, ho, -⟩ := h.dependency_visible hH hst hd
    cases ((h.owner_eq_none hH hst).2 hroot).symm.trans ho
  owner _ _ _ hst ho := h.owner_isContext hH hst ho
  unowned _ _ hst := h.owner_eq_none hH hst
  assumption _ _ hst _ _ := h.getElem?_assumptions hH hst
  authority x a ha := by
    obtain ⟨hid, c, hc⟩ := h.authority ha
    exact ⟨hid, contains_of_graph hc⟩

end Maintained

end Store

/-- In every store that a sequential run reaches, the statements are a forest. -/
theorem Reached.forest_structured {e : Engine}
    (h : Reached (fun e op => op.Sequential e ∧ op.Faithful e) e) :
    e.store.Structured ∧ ∀ x, ¬Relation.TransGen e.store.Refers x x := by
  obtain ⟨H, hsession⟩ := h.session (fun _ _ hop => hop.1) (fun _ _ hop => hop.2.offers)
  have hstructured := hsession.maintained.structured hsession.lawful
  exact ⟨hstructured, fun _ => hstructured.acyclic⟩

theorem twoRoots_structured :
    let s := (Op.runAll (.inMemory {}) twoRoots).store
    s.Structured ∧ s.ids.map StatementId.raw = [1, 2, 3, 4, 5] :=
  ⟨(Reached.forest_structured (reached_twoRoots.mono fun _ _ hop => ⟨hop.1, hop.2.1⟩)).1, rfl⟩

end StatementGraph
