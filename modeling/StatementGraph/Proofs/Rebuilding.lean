import StatementGraph.Mutation.Restore
import StatementGraph.Proofs.Construction
import StatementGraph.Proofs.Labels

namespace StatementGraph

namespace Graph

variable {G H : Graph} {D : Discipline} {o x : StatementId} {c : Content} {term inner t : Term}
  {dependencies : IdSet} {data : ContextData}

def Ready (G : Graph) (c : Content) : Prop :=
  (∀ o, c.owner = some o → ∃ co, G o = some co) ∧ ∀ d ∈ c.dependencies, ∃ cd, G d = some cd

def Carries (H : Graph) (t : Term) : Prop :=
  ∀ x type, (x, type) ∈ t.occurrences → ∃ c, H x = some c ∧ (type == c.term) = true

theorem Ready.isContext (h : G.Ready c) (hH : H.Lawful D) (hs : G.Sub H) (hx : H x = some c)
    (ho : c.owner = some o) : G.IsContext o := by
  obtain ⟨-, c', data, hc', hk⟩ := (hH x c hx).owner o ho
  obtain ⟨co, hco⟩ := h.1 o ho
  cases hc'.symm.trans (hs o co hco)
  exact ⟨c', data, hco, hk⟩

theorem Ready.sees {d : StatementId} (h : G.Ready c) (hH : H.Lawful D) (hs : G.Sub H)
    (hr : G.Rooted) (hx : H x = some c) (ho : c.owner = some o) (hd : d ∈ c.dependencies) :
    G.Sees o d := by
  obtain ⟨-, o', ho', hsees⟩ := (hH x c hx).dependency d hd
  cases ho.symm.trans ho'
  obtain ⟨co, hco⟩ := h.1 o ho
  obtain ⟨cd, hcd⟩ := h.2 d hd
  exact hs.sees_of hr hco hcd hsees

theorem Ready.checks (h : G.Ready c) (hs : G.Sub H) (hr : G.Rooted) (ho : c.owner = some o)
    (ht : H.Checks o t) (hdep : ∀ y ∈ t.freeVars, y ∈ c.dependencies) : G.Checks o t := by
  refine ⟨ht.1, fun y type hy => ?_⟩
  obtain ⟨hsees, cy, hcy, heq⟩ := ht.2 y type hy
  obtain ⟨co, hco⟩ := h.1 o ho
  obtain ⟨cy', hcy'⟩ := h.2 y (hdep y (Term.mem_freeVars.2 ⟨type, hy⟩))
  cases hcy.symm.trans (hs y cy' hcy')
  exact ⟨hs.sees_of hr hco hcy' hsees, cy, hcy', heq⟩

theorem Ready.unfolds (h : G.Ready c) (hH : H.Lawful D) (hs : G.Sub H) (hr : G.Rooted)
    (hx : H x = some c) (hk : c.kind = .context data) :
    ∃ dependencies inner, G.Unfolds c.term dependencies inner data.kind ∧
      ∀ d, data.kind = .unfolding d → ∃ o, c.owner = some o ∧ G.Sees o d := by
  have hdep (d : StatementId) (hd : data.kind = .unfolding d) : d ∈ c.dependencies := by
    rw [(hH x c hx).built.tracked, hk]
    exact Or.inr hd
  cases (hH x c hx).built with
  | @context owner term inner consequent dependencies kind entries hroot hinner =>
    cases hk
    refine ⟨dependencies, inner, ?_, fun d hd => ?_⟩
    · cases kind with
      | unfolding d =>
        obtain ⟨cd, value, hcd, hkd, hrest⟩ := hinner
        obtain ⟨cd', hcd'⟩ := h.2 d (hdep d rfl)
        cases hcd.symm.trans (hs d cd' hcd')
        exact ⟨cd, value, hcd', hkd, hrest⟩
      | nested => exact hinner
      | root => exact hinner
    · obtain ⟨-, o, ho, -⟩ := (hH x _ hx).dependency d (hdep d hd)
      exact ⟨o, ho, h.sees hH hs hr hx ho (hdep d hd)⟩
  | _ => cases hk

theorem Lawful.checks_declaration {value : Term} (h : H.Lawful D) (hx : H x = some c)
    (ho : c.owner = some o) (hk : c.kind = .declaration value) :
    ∃ term, H.Checks o value ∧ value.typeOf = .ok term := by
  cases (h x c hx).built with
  | declaration hchecks htype =>
    cases hk
    cases ho
    exact ⟨_, hchecks, htype⟩
  | _ => cases hk

theorem Lawful.checks_specialization {general : StatementId} {argument : Term} (h : H.Lawful D)
    (hx : H x = some c) (ho : c.owner = some o)
    (hk : c.kind = .specialization general argument) :
    ∃ cg term, H general = some cg ∧ H.Checks o argument ∧
      cg.term.compose argument = .ok term := by
  cases (h x c hx).built with
  | specialization hg hchecks hcompose =>
    cases hk
    cases ho
    exact ⟨_, _, hg, hchecks, hcompose⟩
  | _ => cases hk

theorem Lawful.declaration_eq {value : Term} (h : H.Lawful D) (hx : H x = some c)
    (ho : c.owner = some o) (hk : c.kind = .declaration value) (htype : value.typeOf = .ok term) :
    c = ⟨some o, term, term.freeVars.union value.freeVars, .declaration value⟩ := by
  cases (h x c hx).built with
  | declaration _ htype' =>
    cases hk
    cases ho
    cases htype.symm.trans htype'
    rfl
  | _ => cases hk

/-- The same general statement and argument compose to the same term. -/
theorem Lawful.specialization_eq {general : StatementId} {argument : Term} {c' : Content}
    (h : H.Lawful D) (hx : H x = some c) (ho : c.owner = some o)
    (hk : c.kind = .specialization general argument) (hg : H general = some c')
    (hcompose : c'.term.compose argument = .ok term) :
    c = ⟨some o, term, (term.freeVars.insert general).union argument.freeVars,
      .specialization general argument⟩ := by
  cases (h x c hx).built with
  | specialization hg' _ hcompose' =>
    cases hk
    cases ho
    cases hg.symm.trans hg'
    cases hcompose.symm.trans hcompose'
    rfl
  | _ => cases hk

theorem Unfolds.unique {kind : ContextKind} {dependencies' : IdSet} {inner' : Term}
    (h : H.Unfolds term dependencies inner kind) (h' : H.Unfolds term dependencies' inner' kind) :
    dependencies = dependencies' ∧ inner = inner' := by
  cases kind with
  | unfolding d =>
    obtain ⟨c, value, hc, hk, rfl, rfl⟩ := h
    obtain ⟨c', value', hc', hk', rfl, rfl⟩ := h'
    cases hc.symm.trans hc'
    cases hk.symm.trans hk'
    exact ⟨rfl, rfl⟩
  | nested => exact ⟨h.1.trans h'.1.symm, h.2.trans h'.2.symm⟩
  | root => exact ⟨h.1.trans h'.1.symm, h.2.trans h'.2.symm⟩

/-- A context that reads the same term has the same assumptions and the same consequent. -/
theorem Lawful.context_eq {context : Statement} {assumptions : List Statement}
    (h : H.Lawful D) (hx : H x = some c) (hk : c.kind = .context data)
    (hunfolds : H.Unfolds c.term dependencies inner data.kind)
    (hrecords : contextRecords c.owner c.term data.kind x dependencies inner data.assumptions =
      (context, assumptions)) :
    data.assumptions.length = inner.unproject.arity ∧ (c.owner = none ↔ data.kind = .root) ∧
      ∀ st ∈ context :: assumptions, H st.id = some st.content := by
  cases (h x c hx).built with
  | @context owner term inner' consequent dependencies' kind entries hroot hinner hpeel harity
      hentries =>
    cases hk
    obtain ⟨rfl, rfl⟩ := hunfolds.unique hinner
    have hlen : (entries.map Prod.fst).length = inner.unproject.arity := by
      rw [List.length_map, harity]
    obtain ⟨entries', consequent', hpeel', hfst, rfl, -, hmem⟩ := contextRecords_eq hrecords hlen
    rw [hfst, hpeel] at hpeel'
    cases hpeel'
    refine ⟨hlen, hroot, fun st hst => ?_⟩
    rcases List.mem_cons.1 hst with rfl | hst
    · exact hx
    · obtain ⟨i, ⟨a, domain⟩, hi, rfl⟩ := (hmem st).1 hst
      exact hentries i a domain hi
  | _ => cases hk

end Graph

/-- The term of a context passes its check again where what it mentions is there. -/
theorem Store.validate_of_ready {D : Discipline} {H : Graph} {s : Store} {x : StatementId}
    {c : Content} (hH : H.Lawful D) (hs : s.graph.Sub H) (hr : s.graph.Rooted)
    (hx : H x = some c) (h : s.graph.Ready c) (hc : H.Carries c.term) :
    s.validate c.owner c.term = .ok () := by
  rw [validate_eq_ok]
  refine ⟨(hH x c hx).term.2.2, fun o ho => ?_⟩
  have hdep : o.1 ∈ c.dependencies :=
    ((hH x c hx).built.tracked o.1).2 (Or.inl (Term.mem_freeVars.2 ⟨o.2, ho⟩))
  obtain ⟨-, owner, howner, -⟩ := (hH x c hx).dependency o.1 hdep
  obtain ⟨co, hco, heq⟩ := hc o.1 o.2 ho
  obtain ⟨co', hco'⟩ := h.2 o.1 hdep
  cases hco.symm.trans (hs o.1 co' hco')
  obtain ⟨st, hst, rfl⟩ := graph_eq_some.1 hco'
  refine checkVariable_eq_ok.2 ⟨st, hst, ?_, heq⟩
  rw [howner]
  exact isVisible_iff.2 (h.sees hH hs hr hx howner hdep)

namespace Engine

open Store

variable {D : Discipline} {t : TransactionId} {H : Graph} {e e' e'' : Engine}
  {ids ids' : List StatementId} {st : Statement} {x : StatementId}

/-- Some ids of the history have come back, and the engine is sound against the same history. -/
structure Restored (D : Discipline) (t : TransactionId) (H : Graph) (ids : List StatementId)
    (e e' : Engine) : Prop where
  sound : Sound D t H e'
  counter : e'.store.allocator.next ≠ 0
  kept : e.store.graph.Sub e'.store.graph
  back : ∀ x c, e'.store.graph x = some c → e.store.graph x = some c ∨ x ∈ ids
  evolves : Evolves t e e'

theorem Restored.refl (hs : Sound D t H e) (hc : e.store.allocator.next ≠ 0)
    (ids : List StatementId) : Restored D t H ids e e :=
  ⟨hs, hc, .refl _, fun _ _ h => Or.inl h, .refl t e⟩

theorem Restored.trans (h : Restored D t H ids e e') (h' : Restored D t H ids' e' e'') :
    Restored D t H (ids ++ ids') e e'' where
  sound := h'.sound
  counter := h'.counter
  kept := h.kept.trans h'.kept
  back x c hx := by
    rw [List.mem_append]
    rcases h'.back x c hx with hx | hx
    · exact (h.back x c hx).imp_right Or.inl
    · exact Or.inr (Or.inr hx)
  evolves := h.evolves.trans h'.evolves

theorem Restored.mono (h : Restored D t H ids e e') (hsub : ids ⊆ ids') :
    Restored D t H ids' e e' :=
  { h with back := fun x c hx => (h.back x c hx).imp_right fun hx => hsub hx }

theorem restored_of_grown (hs : Sound D t H e') (hg : Grown t H e H e')
    (hc : e'.store.allocator.next ≠ 0) : Restored D t H [] e e' := by
  refine ⟨hs, hc, hg.kept, fun x c hx => (hg.new x c hx).imp_right fun hnone => ?_, hg.evolves⟩
  rw [hs.maintained.sub x c hx] at hnone
  cases hnone

theorem reserve_cases (x : StatementId) (e : Engine) :
    (reserve x).perform e = (.error (.breakdown .overflow), e) ∨
      ∃ a, e.store.allocator.reserve x = some a ∧ (reserve x).perform e =
        (.ok (), { e with store := { e.store with allocator := a } }) := by
  rw [reserve, perform_get_bind, Store.reserve]
  cases e.store.allocator.reserve x with
  | none => exact Or.inl rfl
  | some a => exact Or.inr ⟨a, rfl, rfl⟩

theorem perform_reserve (h : e.store.allocator.Past x) (hnext : e.store.allocator.next ≠ 0) :
    (reserve x).perform e = (.ok (), e) := by
  rw [reserve, perform_get_bind, Store.reserve, Allocator.reserve_of_past h hnext]
  rfl

theorem perform_reserveEach {ids : List StatementId} (h : ∀ x ∈ ids, e.store.allocator.Past x)
    (hnext : e.store.allocator.next ≠ 0) : (ids.forM reserve).perform e = (.ok (), e) := by
  induction ids with
  | nil => rfl
  | cons x rest ih =>
    change (reserve x >>= fun _ => rest.forM reserve).perform e = _
    rw [perform_bind, perform_reserve (h x List.mem_cons_self) hnext]
    exact ih fun y hy => h y (List.mem_cons_of_mem _ hy)

theorem restored_of_entered {l : List Statement} (hs : Sound D t H e)
    (hc : e.store.allocator.next ≠ 0) (hnew : ∀ st ∈ l, e.store.graph st.id = none)
    (hm : e'.store.Maintained H) (hr : (e.store.writeAll l).Reflagged e'.store)
    (he : Evolves t e e') : Restored D t H (l.map Statement.id) e e' := by
  have hgraph : e'.store.graph = e.store.graph.setAll l := hr.graph.trans graph_writeAll
  have hallocator : e'.store.allocator = e.store.allocator := hr.allocator.trans allocator_writeAll
  refine ⟨⟨hs.lawful, hm, hallocator ▸ hs.counter, he.isOpen hs.isOpen⟩, hallocator ▸ hc, ?_,
    fun x c hx => ?_, he⟩
  · rw [hgraph]
    exact .setAll_new hnew
  · rw [hgraph] at hx
    rcases Graph.setAll_cases hx with ⟨st, hst, rfl, -⟩ | hx
    · exact Or.inr (List.mem_map_of_mem hst)
    · exact Or.inl hx

theorem restored_enter {o : StatementId} (st : Statement) (hs : Sound D t H e)
    (hc : e.store.allocator.next ≠ 0)
    (hst : H st.id = some st.content) (hdead : e.store.graph st.id = none)
    (hflag : st.proved = false) (hname : st.identifier = none) (hkind : st.isContext = false)
    (howner : st.owner = some o) (hctx : e.store.graph.IsContext o)
    (hdep : ∀ d ∈ st.dependencies, e.store.graph.Sees o d) :
    (e.enter t st).queue = [] ∧ Restored D t H [st.id] e (e.enter t st).engine ∧
      (∀ y, (e.enter t st).engine.store.nameOf y = e.store.nameOf y) ∧
      ∃ c, (e.enter t st).engine.store.graph st.id = some c := by
  obtain ⟨hrests, hm, hr⟩ := maintained_enter (t := t) hs.lawful hs.maintained hst hdead hflag hkind
    (fun o' ho => by
      cases howner.symm.trans ho
      obtain ⟨c, -, hc, -⟩ := hctx
      exact ⟨c, hc⟩)
    (fun d hd => by
      obtain ⟨c, -, hc, -⟩ := hdep d hd
      exact ⟨c, hc⟩)
  have hnew : ∀ st' ∈ [st], e.store.graph st'.id = none := by simpa using hdead
  refine ⟨hrests, restored_of_entered hs hc hnew hm hr (evolves_enter hname), fun y => ?_,
    st.content, ?_⟩
  · rw [hr.names]
    exact nameOf_writeAll (by simpa using hname) (by simpa using nameOf_of_dead hdead) y
  · rw [hr.graph, graph_writeAll]
    exact Graph.set_self

/-- An action that rebuilds a statement brings nothing back but the given ids. -/
structure Rebuilt (D : Discipline) (t : TransactionId) (H : Graph) (ids : List StatementId)
    (x : StatementId) (ready : Prop) (e : Engine) (r : Except Failure Unit) (e' : Engine) :
    Prop where
  restored : Restored D t H ids e e'
  names : ∀ y, e'.store.nameOf y = e.store.nameOf y
  live : r = .ok () → ∃ c, e'.store.graph x = some c
  complete : ready → r = .ok ()
  answered : Answered r

def Rebuilds (D : Discipline) (t : TransactionId) (H : Graph) (ids : List StatementId)
    (x : StatementId) (ready : Prop) (e : Engine) (m : Action Unit) : Prop :=
  ∀ r e', m.perform e = (r, e') → Rebuilt D t H ids x ready e r e'

variable {ready : Prop}

theorem Rebuilds.mono {m : Action Unit} (h : Rebuilds D t H ids x ready e m) (hsub : ids ⊆ ids') :
    Rebuilds D t H ids' x ready e m := by
  intro r e' hrun
  have hr := h r e' hrun
  exact { hr with restored := hr.restored.mono hsub }

theorem Rebuilds.imp {ready' : Prop} {m : Action Unit} (h : Rebuilds D t H ids x ready e m)
    (hr : ready' → ready) : Rebuilds D t H ids x ready' e m := by
  intro r e' hrun
  have hm := h r e' hrun
  exact { hm with complete := fun h => hm.complete (hr h) }

theorem rebuilds_throw (hs : Sound D t H e) (hc : e.store.allocator.next ≠ 0) {f : Failure}
    (hf : f.breakdown? = none) (hready : ¬ready) : Rebuilds D t H ids x ready e (throw f) := by
  intro r e' hrun
  cases hrun
  exact ⟨.refl hs hc ids, fun _ => rfl, fun h => (by cases h), fun h => absurd h hready,
    answered_error hf⟩

theorem rebuilds_lift_bind {α : Type} {y : Except Failure α} {k : α → Action Unit}
    (hs : Sound D t H e) (hc : e.store.allocator.next ≠ 0) (hy : Answered y)
    (hok : ready → ∃ a, y = .ok a) (h : ∀ a, y = .ok a → Rebuilds D t H ids x ready e (k a)) :
    Rebuilds D t H ids x ready e (liftM y >>= k) := by
  cases y with
  | error f =>
    apply rebuilds_throw hs hc (hy f rfl)
    intro hr
    obtain ⟨a, ha⟩ := hok hr
    cases ha
  | ok a => exact h a rfl

theorem rebuilds_get_bind {k : Engine → Action Unit} (h : Rebuilds D t H ids x ready e (k e)) :
    Rebuilds D t H ids x ready e (get >>= k) := h

theorem rebuilds_await {run : Propagation} (hrests : run.queue = [])
    (h : Restored D t H ids e run.engine)
    (hnames : ∀ y, run.engine.store.nameOf y = e.store.nameOf y)
    (hlive : ∃ c, run.engine.store.graph x = some c) :
    Rebuilds D t H ids x ready e (await run) := by
  intro r e' hrun
  rw [perform_await hrests] at hrun
  cases hrun
  exact ⟨h, hnames, fun _ => hlive, fun _ => rfl, answered_ok ()⟩

theorem rebuilds_bind_of_idle {m : Action PUnit} {k : PUnit → Action Unit}
    (hm : m.perform e = (.ok (), e)) (h : Rebuilds D t H ids x ready e (k ())) :
    Rebuilds D t H ids x ready e (m >>= k) := by
  intro r e' hrun
  rw [perform_bind, hm] at hrun
  exact h r e' hrun

variable {c : Content} {o : StatementId}

theorem rebuilds_declaration {value : Term} (hs : Sound D t H e)
    (hc : e.store.allocator.next ≠ 0) (hx : H x = some c) (hk : c.kind = .declaration value)
    (ho : c.owner = some o) (hctx : e.store.graph.IsContext o) (hdead : e.store.graph x = none) :
    Rebuilds D t H [x] x (e.store.graph.Ready c) e (insertDeclaration t o value x) := by
  have hm := hs.maintained
  refine rebuilds_get_bind (rebuilds_lift_bind hs hc answered_declarationRecord (fun hready => ?_)
    fun st hrecord => ?_)
  · obtain ⟨term, hchecks, htype⟩ := hs.lawful.checks_declaration hx ho hk
    apply declarationRecord_of_checks (hready.checks hm.sub hm.closed.owner ho hchecks _) htype
    intro y hy
    rw [(hs.lawful x c hx).built.tracked, hk]
    exact Or.inr hy
  · obtain ⟨hvalid, term, htype, rfl⟩ := declarationRecord_eq_ok.1 hrecord
    have hallow := (hs.lawful x c hx).supplied value (by rw [hk]; rfl)
    rw [hs.lawful.declaration_eq hx ho hk htype] at hx
    obtain ⟨hrests, hrestored, hnames, hlive⟩ := restored_enter (t := t)
      ⟨x, some o, term, false, term.freeVars.union value.freeVars, none, .declaration value⟩ hs hc
      hx hdead rfl rfl rfl rfl hctx fun d hd => Graph.sees_declaration hs.lawful hm.sub
        (hs.lawful.scoped_of_sub hm.sub hm.closed) (checks_of_validate hvalid) hallow htype hd
    exact rebuilds_get_bind (rebuilds_await hrests hrestored hnames hlive)

theorem rebuilds_specialization {general : StatementId} {argument : Term} (hs : Sound D t H e)
    (hc : e.store.allocator.next ≠ 0) (hx : H x = some c)
    (hk : c.kind = .specialization general argument) (ho : c.owner = some o)
    (hctx : e.store.graph.IsContext o) (hdead : e.store.graph x = none) :
    Rebuilds D t H [x] x (e.store.graph.Ready c) e
      (insertSpecialization t o general argument x) := by
  have hm := hs.maintained
  refine rebuilds_get_bind (rebuilds_lift_bind hs hc answered_specializationRecord
    (fun hready => ?_) fun st hrecord => ?_)
  · obtain ⟨cg, term, hcg, hchecks, hcompose⟩ := hs.lawful.checks_specialization hx ho hk
    have hdep (y : StatementId) (hy : y = general ∨ y ∈ argument.freeVars) :
        y ∈ c.dependencies := by
      rw [(hs.lawful x c hx).built.tracked, hk]
      exact Or.inr hy
    obtain ⟨cg', hcg'⟩ := hready.2 general (hdep general (Or.inl rfl))
    cases hcg.symm.trans (hm.sub general cg' hcg')
    exact specializationRecord_of_checks hcg'
      (hready.sees hs.lawful hm.sub hm.closed.owner hx ho (hdep general (Or.inl rfl)))
      (hready.checks hm.sub hm.closed.owner ho hchecks fun y hy => hdep y (Or.inr hy)) hcompose
  · obtain ⟨hvalid, hsees, cg, term, hcg, hcompose, rfl⟩ := specializationRecord_eq_ok hrecord
    rw [hs.lawful.specialization_eq hx ho hk (hm.sub general cg hcg) hcompose] at hx
    obtain ⟨hrests, hrestored, hnames, hlive⟩ := restored_enter (t := t)
      ⟨x, some o, term, false, (term.freeVars.insert general).union argument.freeVars, none,
        .specialization general argument⟩ hs hc hx hdead rfl rfl rfl rfl hctx fun d hd =>
        Graph.sees_specialization hs.lawful hm.sub (hs.lawful.scoped_of_sub hm.sub hm.closed) hcg
          hsees (checks_of_validate hvalid) hcompose hd
    exact rebuilds_get_bind (rebuilds_await hrests hrestored hnames hlive)

theorem rebuilds_context {data : ContextData} (hs : Sound D t H e)
    (hc : e.store.allocator.next ≠ 0) (hx : H x = some c) (hk : c.kind = .context data)
    (hctx : ∀ o, c.owner = some o → e.store.graph.IsContext o)
    (hvisible : ∀ y ∈ c.term.freeVars, ∃ o, c.owner = some o ∧ e.store.graph.Sees o y)
    (hdead : ∀ y ∈ x :: data.assumptions, e.store.graph y = none) :
    Rebuilds D t H (x :: data.assumptions) x (e.store.graph.Ready c) e
      (insertContext t c.owner c.term data.kind x (some data.assumptions)) := by
  have hm := hs.maintained
  refine rebuilds_get_bind (rebuilds_lift_bind hs hc answered_unfold (fun hready => ?_)
    fun ⟨dependencies, inner⟩ hunfold => ?_)
  · obtain ⟨dependencies, inner, hunfolds, hunfolded⟩ :=
      hready.unfolds hs.lawful hm.sub hm.closed.owner hx hk
    exact ⟨_, unfold_of_unfolds hunfolds hunfolded⟩
  obtain ⟨hunfolds, hunfolded⟩ := unfold_eq_ok hunfold
  cases hrecords :
    contextRecords c.owner c.term data.kind x dependencies inner data.assumptions with
  | mk context assumptions =>
    obtain ⟨hlen, hroot, hl⟩ := hs.lawful.context_eq hx hk (hunfolds.mono hm.sub) hrecords
    have hids : assumptionIds x inner.unproject.arity (some data.assumptions) =
        pure data.assumptions := if_neg (by omega)
    have hopens : e.store.graph.Opens c.owner c.term data.kind dependencies inner :=
      ⟨hctx, hroot, hvisible, hunfolds, hunfolded⟩
    have hfits := Graph.contextFits hlen hopens hrecords
      (hs.lawful.scoped_of_sub hm.sub hm.closed) (hm.tracked hs.lawful)
      (hs.lawful.nodup_bundle hx hk) hdead
    obtain ⟨hmap, -⟩ := Graph.contextRecords_ids hrecords hlen
    have hunnamed := Graph.contextRecords_unnamed hrecords
    obtain ⟨hrests, hentered, hr⟩ := maintained_enterContext (t := t) hs.lawful hm hl hfits
    have hrestored := restored_of_entered hs hc hfits.new hentered hr
      (evolves_enterContext hunnamed)
    rw [hmap] at hrestored
    dsimp only
    rw [hids, pure_bind, hrecords]
    refine rebuilds_get_bind (rebuilds_await hrests hrestored (fun y => ?_) ⟨context.content, ?_⟩)
    · rw [hr.names]
      exact nameOf_writeAll hunnamed (fun st hst => nameOf_of_dead (hfits.new st hst)) y
    · rw [hr.graph, graph_writeAll, ← (List.cons.inj hmap).1]
      exact Graph.setAll_mem hfits.nodup List.mem_cons_self

/-- Going on only if the owner is there and is a context. -/
theorem rebuilds_guard {owner : Option StatementId} {m : Action Unit} (hs : Sound D t H e)
    (hc : e.store.allocator.next ≠ 0) {f : StatementId → Failure}
    (hf : ∀ o, (f o).breakdown? = none) :
    (ready → ∀ o, owner = some o → e.store.graph.IsContext o) →
    ((∀ o, owner = some o → e.store.graph.IsContext o) → Rebuilds D t H ids x ready e m) →
    Rebuilds D t H ids x ready e (match owner with
      | some o =>
        if !(e.store.get? o).any Statement.isContext then
          (throw (f o) : Action PUnit) >>= fun _ => m
        else m
      | none => m) := by
  intro hready h
  cases owner with
  | some o =>
    dsimp only
    split
    case isTrue hno =>
      apply rebuilds_throw hs hc (hf o)
      intro hr
      obtain ⟨c, data, hc, hk⟩ := hready hr o rfl
      obtain ⟨so, hso, rfl⟩ := graph_eq_some.1 hc
      rw [hso, Option.any_some, Statement.isContext_iff.2 ⟨data, hk⟩] at hno
      cases hno
    case isFalse hctx =>
      refine h fun o' ho => ?_
      cases ho
      rw [Bool.not_eq_true', Bool.not_eq_false, Option.any_eq_true] at hctx
      obtain ⟨so, hso, hctx⟩ := hctx
      exact isContext_of_require (requireContext_eq_ok.2 ⟨hso, hctx⟩)
  | none => exact h fun o ho => by cases ho

/-- Rebuilding a statement that is kept. -/
theorem rebuilds_rebuildDeleted (hs : Sound D t H e) (hc : e.store.allocator.next ≠ 0)
    (hst : H st.id = some st.content)
    (hdead : ∀ y ∈ st.id :: st.assumptions, e.store.graph y = none) :
    Rebuilds D t H (st.id :: st.assumptions) st.id
      (e.store.graph.Ready st.content ∧ H.Carries st.term ∧ st.isAssumption = false) e
      (rebuildDeleted t st) := by
  have hid : [st.id] ⊆ st.id :: st.assumptions := by simp
  have hself := hdead st.id List.mem_cons_self
  have hm := hs.maintained
  refine rebuilds_get_bind ?_
  dsimp only
  refine rebuilds_guard hs hc (fun _ => rfl) (fun hready o ho => ?_) fun hctx => ?_
  · exact hready.1.isContext hs.lawful hm.sub hst ho
  refine rebuilds_bind_of_idle (perform_reserve (hs.counter _ _ hst) hc) ?_
  split
  case h_1 value owner hk ho =>
    exact ((rebuilds_declaration hs hc hst hk ho (hctx owner ho) hself).mono hid).imp And.left
  case h_2 general argument owner hk ho =>
    exact ((rebuilds_specialization hs hc hst hk ho (hctx owner ho) hself).mono hid).imp And.left
  case h_3 data hk =>
    have hassumptions : st.assumptions = data.assumptions := by
      rw [Statement.assumptions, Statement.contextData?, hk]
      rfl
    have hpast (y : StatementId) (hy : y ∈ data.assumptions) : e.store.allocator.Past y := by
      obtain ⟨ca, -, hca, -⟩ := hs.lawful.inside hst (hassumptions ▸ hy)
      exact hs.counter y ca hca
    rw [hassumptions] at hdead ⊢
    refine rebuilds_lift_bind hs hc answered_validate (fun hready => ⟨(), ?_⟩) fun _ hvalid => ?_
    · exact validate_of_ready hs.lawful hm.sub hm.closed.owner hst hready.1 hready.2.1
    refine rebuilds_bind_of_idle (perform_reserveEach hpast hc) ?_
    exact (rebuilds_context (c := st.content) hs hc hst hk hctx
      (fun y hy => sees_of_validate hvalid hy) hdead).imp And.left
  case h_4 hcontext hdecl hspec =>
    apply rebuilds_throw hs hc rfl
    intro hready
    obtain ⟨owner, howner⟩ := (hs.lawful _ _ hst).built.owned hcontext
    have halone := hready.2.2
    rw [Statement.isAssumption] at halone
    cases hk : st.kind with
    | assumption order =>
      rw [hk] at halone
      cases halone
    | declaration value => exact hdecl value owner hk howner
    | specialization general argument => exact hspec general argument owner hk howner
    | context data => exact hcontext data hk

end Engine

end StatementGraph
