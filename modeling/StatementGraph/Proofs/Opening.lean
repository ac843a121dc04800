import StatementGraph.Proofs.Auditing
import StatementGraph.Proofs.TermMarkers
import StatementGraph.Proofs.TermSplitting

namespace StatementGraph

/-- To open a context as a root, inside a context, or there with a declaration unfolded. -/
inductive Opening where
  | root
  | nested (context : StatementId)
  | unfolding (context declaration : StatementId)

namespace Opening

def action (t : TransactionId) (term : Term) : Opening → Action StatementId
  | root => Engine.createRoot t term
  | nested context => Engine.openNested t context term
  | unfolding context declaration => Engine.openUnfolding t context term declaration

def owner : Opening → Option StatementId
  | root => none
  | nested context => some context
  | unfolding context _ => some context

def kind : Opening → ContextKind
  | root => .root
  | nested _ => .nested
  | unfolding _ declaration => .unfolding declaration

/-- However a context is opened, its term is checked and it is entered under a new id. -/
theorem performs {o : Opening} {t : TransactionId} {term : Term} {x : StatementId} {e e' : Engine}
    (h : (o.action t term).perform e = (.ok x, e')) :
    e.store.validate o.owner term = .ok () ∧ ∃ e₀, Engine.allocate.perform e = (.ok x, e₀) ∧
      (Engine.insertContext t o.owner term o.kind x none).perform e₀ = (.ok (), e') := by
  cases o with
  | root =>
    obtain ⟨-, hvalid, hmade⟩ := Engine.createRoot_performs.1 h
    exact ⟨hvalid, hmade⟩
  | nested context =>
    obtain ⟨-, -, hvalid, hmade⟩ := Engine.openContext_performs.1 h
    exact ⟨hvalid, hmade⟩
  | unfolding context declaration =>
    obtain ⟨-, -, hvalid, hmade⟩ := Engine.openContext_performs.1 h
    exact ⟨hvalid, hmade⟩

end Opening

namespace Engine

open Store

variable {t : TransactionId} {e e₀ e₁ : Engine} {x : StatementId} {owner : Option StatementId}
  {term inner : Term} {kind : ContextKind} {dependencies : IdSet} {ids : List StatementId}

theorem Audited.used_inner (h : e.Audited) (hvalid : e.store.validate owner term = .ok ())
    (hunfolds : e.store.graph.Unfolds term dependencies inner kind) {d : StatementId}
    (hd : d ∈ inner.unproject.freeVars) : e.store.allocator.Past d := by
  obtain ⟨type, hd⟩ := Term.mem_freeVars.1 hd
  rw [Term.occurrences_unproject] at hd
  have hterm (hd : (d, type) ∈ term.occurrences) : e.store.allocator.Past d :=
    used_of_live h.accounted (live_of_validate hvalid (Term.mem_freeVars.2 ⟨type, hd⟩))
  cases kind with
  | unfolding declaration =>
    obtain ⟨c, value, hc, hkind, -, rfl⟩ := hunfolds
    rcases Term.mem_occurrences_mapVars hd with hd | ⟨y, type', image, -, hy, hd⟩
    · exact hterm hd
    · split at hy
      · cases hy
        refine (h.accounted declaration c hc).reads d ?_
        rw [hkind]
        exact Term.mem_freeVars.2 ⟨type, hd⟩
      · cases hy
  | nested => exact hterm (hunfolds.2 ▸ hd)
  | root => exact hterm (hunfolds.2 ▸ hd)

theorem get?_enterContext {context st : Statement} {assumptions : List Statement}
    (hnd : ((context :: assumptions).map Statement.id).Nodup) (hst : st ∈ context :: assumptions) :
    ∃ st', (e.enterContext t context assumptions).engine.store.get? st.id = some st' ∧
      st'.content = st.content := by
  refine graph_eq_some.1 ?_
  rw [(reflagged_enterContext (t := t)).graph, graph_writeAll, Graph.setAll_mem hnd hst]

end Engine

/-- Opening a context splits its term; put together, the parts are equal to it without markers. -/
theorem Reached.opening_splits {permits : Engine → Op → Prop} {e e' : Engine}
    (h : Reached permits e)
    {o : Opening} {t : TransactionId} {term : Term} {x : StatementId}
    (hrun : (o.action t term).perform e = (.ok x, e')) :
    ∃ st inner entries consequent, e'.store.get? x = some st ∧ st.owner = o.owner ∧
      st.term = term ∧ st.kind = .context ⟨o.kind, entries.map Prod.fst, consequent⟩ ∧
      e.store.graph.Unfolds term st.dependencies inner o.kind ∧
      (x :: entries.map Prod.fst).Nodup ∧
      (∀ a ∈ x :: entries.map Prod.fst, e.store.get? a = none) ∧
      (∀ i a domain, entries[i]? = some (a, domain) → ∃ sa, e'.store.get? a = some sa ∧
        sa.owner = some x ∧ sa.term = domain ∧ sa.kind = .assumption i) ∧
      inner.unproject.markers = 0 ∧ inner.unproject.Splits entries consequent := by
  obtain ⟨hvalid, e₀, hnew, hinsert⟩ := o.performs hrun
  obtain ⟨dependencies, inner, ids, e₁, hunfold, hids, -, rfl⟩ :=
    Engine.insertContext_performs.1 hinsert
  cases hrecords : contextRecords o.owner term o.kind x dependencies inner ids with
  | mk context assumptions =>
    dsimp only
    obtain ⟨hlen, hnd, hfresh⟩ := Engine.fresh_ids hnew hids
    obtain ⟨entries, consequent, hpeel, rfl, hcontext, hassumptions, hmem⟩ :=
      Graph.contextRecords_eq hrecords hlen
    have hunfolds : e.store.graph.Unfolds term dependencies inner o.kind :=
      Engine.graph_allocate hnew ▸ (Store.unfold_eq_ok_visible hunfold).1
    have hunique : ((context :: assumptions).map Statement.id).Nodup := by
      rw [List.map_cons, hassumptions, hcontext]
      exact hnd
    have hentered {st : Statement} (hst : st ∈ context :: assumptions) :=
      @Engine.get?_enterContext t e₁ context st assumptions hunique hst
    obtain ⟨st, hst, hcontent⟩ := hentered List.mem_cons_self
    rw [show context.id = x by rw [hcontext]] at hst
    rw [hcontext] at hcontent
    refine ⟨st, inner, entries, consequent, hst, congrArg Content.owner hcontent,
      congrArg Content.term hcontent, congrArg Content.kind hcontent, ?_, hnd, fun a ha => ?_,
      fun i a domain hi => ?_, Term.markers_unproject, ?_⟩
    · rw [show st.dependencies = dependencies from congrArg Content.dependencies hcontent]
      exact hunfolds
    · refine Option.eq_none_iff_forall_ne_some.2 fun sa hsa => hfresh a ha ?_
      exact (h.audited.accounted a sa.content (Store.graph_of_get? hsa)).id
    · obtain ⟨sa, hsa, hcontent⟩ :=
        hentered (List.mem_cons_of_mem _ ((hmem _).2 ⟨i, (a, domain), hi, rfl⟩))
      exact ⟨sa, hsa, congrArg Content.owner hcontent, congrArg Content.term hcontent,
        congrArg Content.kind hcontent⟩
    · refine Term.splits_peel hpeel hlen (List.nodup_cons.1 hnd).2 fun a ha hmention => ?_
      exact hfresh a (List.mem_cons_of_mem _ ha) (h.audited.used_inner hvalid hunfolds hmention)

/-- A root that assumes a proposition, with the assumption declared again. -/
def declaredAgain : List Op :=
  [.begin none, .createRoot ⟨1⟩ (.function ⟨0⟩ (.atom "A") (.atom "Z")),
    .declare ⟨1⟩ (.after 0) (.var (.after 1) (.atom "A"))]

theorem reached_declaredAgain :
    Reached (fun _ _ => True) (Op.runAll (.inMemory {}) declaredAgain) :=
  reached_of_succeed (by decide +kernel)

def shadowing : Term :=
  .function ⟨5⟩ (.apply (.atom "P") (.var (.after 2) (.atom "A")))
    (.projection (.function ⟨5⟩ (.param ⟨5⟩ (.atom "P"))
      (.apply (.atom "Q") (.param ⟨5⟩ (.atom "P")))))

/-- A context that unfolds the declaration keeps the two parameters apart. -/
theorem shadowing_splits :
    let e := Op.runAll (.inMemory {}) declaredAgain
    let made := (Engine.openUnfolding ⟨1⟩ (.after 0) shadowing (.after 2)).perform e
    ∃ st entries consequent, made.2.store.get? (.after 3) = some st ∧
      st.kind = .context ⟨.unfolding (.after 2), entries.map Prod.fst, consequent⟩ ∧
      (shadowing.replaceVar (.after 2) (.var (.after 1) (.atom "A"))).unproject.Splits entries
        consequent := by
  intro e made
  have hrun : made = (.ok (.after 3), made.2) :=
    performs_of_toOption (by decide +kernel)
  have hdeclared : e.store.graph (.after 2) = some ⟨some (.after 0), .atom "A",
      IdSet.ofList [.after 1], .declaration (.var (.after 1) (.atom "A"))⟩ := rfl
  obtain ⟨st, inner, entries, consequent, hst, -, -, hkind, hunfolds, -, -, -, -, hsplits⟩ :=
    reached_declaredAgain.opening_splits (o := .unfolding (.after 0) (.after 2)) hrun
  obtain ⟨c, value, hc, hvalue, -, rfl⟩ := hunfolds
  cases hdeclared.symm.trans hc
  cases hvalue
  exact ⟨st, entries, consequent, hst, hkind, hsplits⟩

end StatementGraph
