import StatementGraph.Proofs.CopyCompleteness

namespace StatementGraph

namespace Graph

variable {G : Graph} {m x context owner d : StatementId} {c : Content}

theorem Sees.around (h : G.Sees m d) (hm : G.Within m x) (hout : ¬G.Within d x) :
    ∃ o, G.ownerOf d = some o ∧ o ≠ x ∧ G.Within x o := by
  obtain ⟨c, o, hc, ho, hw⟩ := h
  have howner : G.ownerOf d = some o := ownerOf_eq.2 ⟨c, hc, ho⟩
  have hnot : ¬G.Within o x := fun hox => hout (.head howner hox)
  have hne : o ≠ x := by
    intro heq
    rw [heq] at hnot
    exact hnot .refl
  exact ⟨o, howner, hne, (hm.comparable hw).resolve_right hnot⟩

theorem Scoped.sees_owner_iff (hs : G.Scoped) (hf : G.Forest) (hx : G.ownerOf x = some context)
    (hcontext : G.ownerOf context = some owner) (hm : G m = some c) (hw : G.Within m x)
    (hd : d ∈ c.dependencies) (hout : ¬G.Within d x) :
    G.Sees owner d ↔ G.ownerOf d ≠ some context := by
  obtain ⟨o, ho, hsees⟩ := hs m c d hm hd
  have hseen : G.Sees m d := hsees.within (.single (ownerOf_eq.2 ⟨c, hm, ho⟩))
  obtain ⟨place, hplace, hne, haround⟩ := hseen.around hw hout
  have hup : G.Within context place := ((within_iff_owner hx).1 haround).resolve_left hne
  constructor
  · rintro ⟨cd, od, hcd, hod, hwithin⟩ hlocal
    cases (ownerOf_eq.2 ⟨cd, hcd, hod⟩).symm.trans hlocal
    exact hf.not_within (hf.owner hcontext).1 hwithin
  · intro hlocal
    obtain ⟨cd, hcd, hod⟩ := ownerOf_eq.1 hplace
    rcases (within_iff_owner hcontext).1 hup with rfl | hbeyond
    · exact absurd hplace hlocal
    · exact ⟨cd, place, hcd, hod, hbeyond⟩

end Graph

namespace Store

variable {s : Store} {x context : StatementId} {st : Statement}

/-- A context sees whatever a statement and its inside depend on outside the statement. -/
def Hoistable (s : Store) (x context : StatementId) : Prop :=
  ∀ m st d, s.graph.Within m x → s.get? m = some st → d ∈ st.dependencies →
    ¬s.graph.Within d x → s.isVisible d context = true

theorem independent_eq (hi : s.Indexed) (ho : s.graph.Owned) (hst : s.get? x = some st)
    (hx : st.owner = some context) : ∃ answer, s.independent context x = .ok answer ∧
      (answer = true ↔ ∀ m sm d, s.graph.Within m x → s.get? m = some sm → d ∈ sm.dependencies →
        ¬s.graph.Within d x → s.ownerOf d ≠ some context) := by
  obtain ⟨c, data, hc, hk⟩ := ho x st.content context (graph_of_get? hst) hx
  obtain ⟨sc, hsc, rfl⟩ := graph_eq_some.1 hc
  have hcontext : s.requireContext context = .ok sc :=
    requireContext_eq_ok.2 ⟨hsc, Statement.isContext_iff.2 ⟨data, hk⟩⟩
  rw [independent, hcontext, require_eq_ok.2 hst]
  refine ⟨_, rfl, ?_⟩
  rw [List.all_eq_true]
  constructor
  · intro h m sm d hm hsm hd hout
    have hmember := h m ((mem_membersOf hi ho hst).2 hm)
    rw [hsm, List.all_eq_true] at hmember
    have hdep := hmember d hd
    simpa [mem_membersOf hi ho hst, hout] using hdep
  · intro h m hm
    cases hsm : s.get? m with
    | none => rfl
    | some sm =>
      rw [List.all_eq_true]
      intro d hd
      by_cases hin : s.graph.Within d x
      · simp [mem_membersOf hi ho hst, hin]
      · simp [h m sm d ((mem_membersOf hi ho hst).1 hm) hsm hd hin]

end Store

/-- A statement is independent of its owner if and only if it could stand outside it. -/
theorem Reached.independent_iff_hoistable {e : Engine} {x context owner : StatementId}
    (h : Reached (fun e op => op.Sequential e ∧ op.Faithful e) e)
    (hcontext : e.store.ownerOf context = some owner) (hx : e.store.ownerOf x = some context) :
    ∃ answer, e.store.independent context x = .ok answer ∧
      (answer = true ↔ e.store.Hoistable x owner) := by
  obtain ⟨H, hsession⟩ := h.session (fun _ _ hop => hop.1) (fun _ _ hop => hop.2.offers)
  have hm := hsession.maintained
  have hf := hm.forest hsession.lawful
  have hscoped := hsession.lawful.scoped_of_sub hm.sub hm.closed
  obtain ⟨st, hst, howner⟩ := Option.bind_eq_some_iff.1 hx
  obtain ⟨answer, hanswer, hiff⟩ := Store.independent_eq hm.indexed hf.owned hst howner
  refine ⟨answer, hanswer, hiff.trans ?_⟩
  rw [Store.ownerOf_eq_graph] at hcontext hx
  have hseen (m d : StatementId) (sm : Statement) (hw : e.store.graph.Within m x)
      (hsm : e.store.get? m = some sm) (hd : d ∈ sm.dependencies)
      (hout : ¬e.store.graph.Within d x) :
      e.store.isVisible d owner = true ↔ e.store.ownerOf d ≠ some context := by
    rw [Store.isVisible_iff, Store.ownerOf_eq_graph]
    exact hscoped.sees_owner_iff hf hx hcontext (Store.graph_of_get? hsm) hw hd hout
  constructor
  · exact fun hlocal m sm d hw hsm hd hout =>
      (hseen m d sm hw hsm hd hout).2 (hlocal m sm d hw hsm hd hout)
  · exact fun hhoist m sm d hw hsm hd hout =>
      (hseen m d sm hw hsm hd hout).1 (hhoist m sm d hw hsm hd hout)

/-- The declaration in the outer context could stand outside it. -/
theorem secluded_hoistable :
    let s := (Op.runAll (.inMemory {}) secluded).store
    s.Hoistable (.after 4) (.after 0) ∧ ¬s.Hoistable (.after 3) (.after 0) ∧
      s.Hoistable (.after 5) (.after 2) := by
  intro s
  have hdecide (context owner x : StatementId) (answer : Bool)
      (hcontext : s.ownerOf context = some owner) (hx : s.ownerOf x = some context)
      (hrun : s.independent context x = .ok answer) : answer = true ↔ s.Hoistable x owner := by
    obtain ⟨answer', hrun', hiff⟩ := reached_secluded.independent_iff_hoistable hcontext hx
    cases hrun.symm.trans hrun'
    exact hiff
  refine ⟨(hdecide (.after 2) _ _ true rfl rfl rfl).1 rfl, fun h => ?_,
    (hdecide (.after 3) _ _ true rfl rfl rfl).1 rfl⟩
  cases (hdecide (.after 2) _ _ false rfl rfl rfl).2 h

end StatementGraph
