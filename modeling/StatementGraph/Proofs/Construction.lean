import StatementGraph.Proofs.Lawmaking

namespace StatementGraph

/-- A supplied term keeps to a discipline as far as its variables stand for statements. -/
def Discipline.Offers (D : Discipline) (G : Graph) (t : Term) : Prop :=
  (∀ x type, (x, type) ∈ t.occurrences → ∀ c, G x = some c → D.leaf G x type) ∧
    (D.params ∨ t.paramFree = true)

theorem Discipline.Offers.allows {D : Discipline} {G H : Graph} {t : Term} (h : D.Offers G t)
    (hcast : t.castFree = true)
    (hlive : ∀ x type, (x, type) ∈ t.occurrences → ∃ c, G x = some c) (hs : G.Sub H) :
    D.Allows H t := by
  refine ⟨fun x type hx => ?_, h.2, hcast⟩
  obtain ⟨c, hc⟩ := hlive x type hx
  exact D.mono hs (h.1 x type hx c hc)

theorem Discipline.Offers.allows_of_checks {D : Discipline} {G H : Graph} {o : StatementId}
    {t : Term} (h : D.Offers G t) (hc : G.Checks o t) (hs : G.Sub H) : D.Allows H t := by
  refine h.allows hc.1 (fun x type hx => ?_) hs
  obtain ⟨-, c, hc, -⟩ := hc.2 x type hx
  exact ⟨c, hc⟩

namespace Engine

open Store

variable {D : Discipline} {t : TransactionId} {H : Graph} {e e' : Engine} {o x : StatementId}
  {value term : Term} {l : List Statement}

/-- Records have come into the history and the graph, and nothing else has changed in them. -/
structure Enters (H : Graph) (e : Engine) (l : List Statement) (H' : Graph) (e' : Engine) :
    Prop where
  history : H' = H.setAll l
  graph : e'.store.graph = e.store.graph.setAll l

/-- New records under new ids make an engine grow. -/
theorem sound_of_entered (hs : Sound D t H e) (hnew : ∀ st ∈ l, H st.id = none)
    (hpast : ∀ st ∈ l, e.store.allocator.Past st.id) (hlaw : (H.setAll l).Lawful D)
    (hm : e'.store.Maintained (H.setAll l)) (hr : (e.store.writeAll l).Reflagged e'.store)
    (he : Evolves t e e') : Sound D t (H.setAll l) e' ∧ Grown t H e (H.setAll l) e' ∧
      Enters H e l (H.setAll l) e' := by
  have hgraph : e'.store.graph = e.store.graph.setAll l := hr.graph.trans graph_writeAll
  have hnone (st : Statement) (hst : st ∈ l) : e.store.graph st.id = none := by
    refine Option.eq_none_iff_forall_ne_some.2 fun c hc => ?_
    have hsome := hs.maintained.sub st.id c hc
    rw [hnew st hst] at hsome
    cases hsome
  refine ⟨⟨hlaw, hm, fun x c hx => ?_, he.isOpen hs.isOpen⟩,
    ⟨.setAll_new hnew, ?_, fun x c hx => ?_, fun x hx => ?_, he⟩, rfl, hgraph⟩
  · rw [hr.allocator, allocator_writeAll]
    rcases Graph.setAll_cases hx with ⟨st, hst, rfl, -⟩ | hx
    · exact hpast st hst
    · exact hs.counter x c hx
  · rw [hgraph]
    exact .setAll_new hnone
  · rw [hgraph] at hx
    rcases Graph.setAll_cases hx with ⟨st, hst, rfl, -⟩ | hx
    · exact Or.inr (hnew st hst)
    · exact Or.inl hx
  · rw [hr.allocator, allocator_writeAll]
    exact hx

theorem sound_withAllocator {a : Allocator} (hs : Sound D t H e) (ha : a.Beyond H) :
    Sound D t H (e.onStore fun s => { s with allocator := a }) where
  lawful := hs.lawful
  maintained :=
    ⟨⟨hs.maintained.indexed.keyed, hs.maintained.indexed.mirrors⟩, hs.maintained.records⟩
  counter := ha
  isOpen := hs.isOpen

/-- A fresh id comes after the whole history. -/
theorem grows_allocate (hs : Sound D t H e) :
    Grows D t H e allocate fun H' e' x =>
      H' = H ∧ H.Fresh x ∧ e'.store.allocator.Past x ∧ e'.store.graph = e.store.graph ∧
        ∀ y, e.store.allocator.Past y → y < x ∧ e'.store.allocator.Past y := by
  refine grows_get_bind ?_
  cases htake : e.store.allocator.take with
  | mk x? a =>
    cases x? with
    | none =>
      have hstore : e.store.allocate = (.error (.inconsistent "statement id space exhausted"),
          { e.store with allocator := a }) := by
        rw [Store.allocate, htake]
      rw [hstore]
      refine ⟨fun x e' hrun => (by cases hrun), fun f e' hrun => Or.inl ?_⟩
      cases hrun
      rfl
    | some x =>
      have hstore : e.store.allocate = (.ok x, { e.store with allocator := a }) := by
        rw [Store.allocate, htake]
      rw [hstore]
      refine ⟨fun x' e' hrun => ?_, fun f e' hrun => by cases hrun⟩
      cases hrun
      obtain ⟨hpast, hx⟩ := Allocator.take_some htake
      refine ⟨H, sound_withAllocator hs fun y c hy => (hpast y (hs.counter y c hy)).2,
        grown_of_graph_eq rfl (fun y hy => (hpast y hy).2) (evolves_of_eq rfl rfl rfl rfl rfl rfl),
        rfl, fun y c hy => (hpast y (hs.counter y c hy)).1, hx, rfl, hpast⟩

/-- Fresh ids come one after the other, and after an id that the counter is past. -/
theorem grows_allocateMany (hs : Sound D t H e) (hpast : e.store.allocator.Past x) (n : Nat) :
    Grows D t H e (allocateMany n) fun H' e' ids =>
      H' = H ∧ ids.length = n ∧ (x :: ids).Pairwise (· < ·) ∧
        (∀ y, y ∈ ids ∨ e.store.allocator.Past y → e'.store.allocator.Past y) ∧
        e'.store.graph = e.store.graph := by
  induction n generalizing e x with
  | zero =>
    refine grows_pure hs ⟨rfl, rfl, List.pairwise_singleton _ _, fun y hy => ?_, rfl⟩
    exact hy.resolve_left List.not_mem_nil
  | succ n ih =>
    refine grows_bind (grows_allocate hs) ?_
    rintro H' e' y hs' - ⟨rfl, -, hy, hgraph, hold⟩
    refine grows_bind (ih hs' hy) ?_
    rintro H' e'' ids hs'' - ⟨rfl, hlen, hsorted, hids, hgraph'⟩
    have hxy : x < y := (hold x hpast).1
    refine grows_pure hs'' ⟨rfl, by rw [List.length_cons, hlen], ?_, fun z hz => ?_,
      hgraph'.trans hgraph⟩
    · refine List.pairwise_cons.2 ⟨fun z hz => ?_, hsorted⟩
      rcases List.mem_cons.1 hz with rfl | hz
      · exact hxy
      · exact Nat.lt_trans hxy ((List.pairwise_cons.1 hsorted).1 z hz)
    · rw [List.mem_cons] at hz
      rcases hz with (rfl | hz) | hz
      · exact hids z (Or.inr hy)
      · exact hids z (Or.inl hz)
      · exact hids z (Or.inr (hold z hz).2)

theorem grows_await {run : Propagation} {H' : Graph} {Q : Graph → Engine → Unit → Prop}
    (hrests : run.queue = []) (hs : Sound D t H' run.engine) (hg : Grown t H e H' run.engine)
    (hq : Q H' run.engine ()) : Grows D t H e (await run) Q := by
  rw [Grows, perform_await hrests]
  refine ⟨fun u e' hrun => ?_, fun f e' hrun => by cases hrun⟩
  cases hrun
  exact ⟨H', hs, hg, hq⟩

/-- Entering a record that is not a context, under a new id. -/
theorem sound_enter (st : Statement) (hs : Sound D t H e) (hfresh : H.Fresh st.id)
    (hpast : e.store.allocator.Past st.id) (hat : H.LawfulAt D st.id st.content)
    (hflag : st.proved = false) (hname : st.identifier = none) (hkind : st.isContext = false)
    (howner : st.owner = some o) (hctx : e.store.graph.IsContext o)
    (hdep : ∀ d ∈ st.dependencies, e.store.graph.Sees o d) :
    (e.enter t st).queue = [] ∧ Sound D t (H.setAll [st]) (e.enter t st).engine ∧
      Grown t H e (H.setAll [st]) (e.enter t st).engine ∧
      Enters H e [st] (H.setAll [st]) (e.enter t st).engine := by
  have hnew : ∀ st' ∈ [st], H st'.id = none := by simpa using hfresh.eq_none
  have hlaw : (H.setAll [st]).Lawful D := hs.lawful.set_fresh hfresh hat
  have hgone : e.store.graph st.id = none := by
    refine Option.eq_none_iff_forall_ne_some.2 fun c hc => ?_
    have hsome := hs.maintained.sub st.id c hc
    rw [hfresh.eq_none] at hsome
    cases hsome
  obtain ⟨hrests, hm, hr⟩ := maintained_enter (t := t) hlaw (hs.maintained.mono (.setAll_new hnew))
    (Graph.set_self) hgone hflag hkind
    (fun o' ho => by
      cases howner.symm.trans ho
      obtain ⟨c, -, hc, -⟩ := hctx
      exact ⟨c, hc⟩)
    (fun d hd => by
      obtain ⟨c, -, hc, -⟩ := hdep d hd
      exact ⟨c, hc⟩)
  exact ⟨hrests, sound_of_entered hs hnew (by simpa using hpast) hlaw hm hr (evolves_enter hname)⟩

theorem grows_insertDeclaration (hs : Sound D t H e) (hctx : e.store.graph.IsContext o)
    (hallow : e.store.graph.Checks o value → D.Allows H value) (hfresh : H.Fresh x)
    (hpast : e.store.allocator.Past x) :
    Grows D t H e (insertDeclaration t o value x) fun H' e' _ => ∃ st : Statement,
      st.id = x ∧ st.owner = some o ∧ st.kind = .declaration value ∧ Enters H e [st] H' e' := by
  have hm := hs.maintained
  have hscoped := hs.lawful.scoped_of_sub hm.sub hm.closed
  refine grows_get_bind (grows_lift_bind hs answered_declarationRecord fun st hrecord => ?_)
  obtain ⟨hvalid, term, htype, rfl⟩ := declarationRecord_eq_ok.1 hrecord
  have hchecks := checks_of_validate hvalid
  obtain ⟨hrests, hs', hg, henters⟩ :=
    sound_enter ⟨x, some o, term, false, _, none, .declaration value⟩ hs
    hfresh hpast
    (Graph.lawfulAt_declaration hs.lawful hm.sub hscoped hfresh hctx hchecks (hallow hchecks) htype)
    rfl rfl rfl rfl hctx fun d hd =>
      Graph.sees_declaration hs.lawful hm.sub hscoped hchecks (hallow hchecks) htype hd
  exact grows_get_bind (grows_await hrests hs' hg ⟨_, rfl, rfl, rfl, henters⟩)

theorem grows_insertSpecialization {general : StatementId} {argument : Term} (hs : Sound D t H e)
    (hctx : e.store.graph.IsContext o)
    (hallow : e.store.graph.Checks o argument → D.Allows H argument) (hfresh : H.Fresh x)
    (hpast : e.store.allocator.Past x) :
    Grows D t H e (insertSpecialization t o general argument x) fun H' e' _ => ∃ st : Statement,
      st.id = x ∧ st.owner = some o ∧ st.kind = .specialization general argument ∧
        Enters H e [st] H' e' := by
  have hm := hs.maintained
  have hscoped := hs.lawful.scoped_of_sub hm.sub hm.closed
  refine grows_get_bind (grows_lift_bind hs answered_specializationRecord fun st hrecord => ?_)
  obtain ⟨hvalid, hsees, c, term, hc, hcompose, rfl⟩ := specializationRecord_eq_ok hrecord
  have hchecks := checks_of_validate hvalid
  obtain ⟨hrests, hs', hg, henters⟩ := sound_enter
    ⟨x, some o, term, false, _, none, .specialization general argument⟩ hs hfresh hpast
    (Graph.lawfulAt_specialization hs.lawful hm.sub hscoped hfresh hctx hc hsees hchecks
      (hallow hchecks) hcompose)
    rfl rfl rfl rfl hctx fun d hd =>
      Graph.sees_specialization hs.lawful hm.sub hscoped hc hsees hchecks hcompose hd
  exact grows_get_bind (grows_await hrests hs' hg ⟨_, rfl, rfl, rfl, henters⟩)

theorem nodup_of_pairwise_lt {ids : List StatementId} (h : ids.Pairwise (· < ·)) : ids.Nodup :=
  h.imp fun {a b} (hlt : a.raw < b.raw) (he : a = b) => Nat.lt_irrefl _ (he ▸ hlt)

/-- Entering a context with its assumptions, under new ids. -/
theorem sound_enterContext {owner : Option StatementId} {kind : ContextKind} {inner : Term}
    {dependencies : IdSet} {ids : List StatementId} {context : Statement}
    {assumptions : List Statement} (hs : Sound D t H e)
    (hopens : e.store.graph.Opens owner term kind dependencies inner)
    (hlen : ids.length = inner.unproject.arity)
    (hrecords : contextRecords owner term kind x dependencies inner ids = (context, assumptions))
    (hallow : D.Allows H term) (hfresh : H.Fresh x) (hsorted : (x :: ids).Pairwise (· < ·))
    (hpast : ∀ y ∈ x :: ids, e.store.allocator.Past y) :
    (e.enterContext t context assumptions).queue = [] ∧
      Sound D t (H.setAll (context :: assumptions)) (e.enterContext t context assumptions).engine ∧
      Grown t H e (H.setAll (context :: assumptions))
        (e.enterContext t context assumptions).engine ∧
      Enters H e (context :: assumptions) (H.setAll (context :: assumptions))
        (e.enterContext t context assumptions).engine := by
  have hm := hs.maintained
  have hscoped := hs.lawful.scoped_of_sub hm.sub hm.closed
  have htracked := hm.tracked hs.lawful
  obtain ⟨hmap, data, hdata⟩ := Graph.contextRecords_ids hrecords hlen
  have hmem (st : Statement) (hst : st ∈ context :: assumptions) : st.id ∈ x :: ids :=
    hmap ▸ List.mem_map_of_mem hst
  have hnone (y : StatementId) (hy : y ∈ x :: ids) : H y = none := by
    rcases List.mem_cons.1 hy with rfl | hy
    · exact hfresh.eq_none
    · exact Graph.Fresh.eq_none fun z c hz =>
        Nat.lt_trans (hfresh z c hz) ((List.pairwise_cons.1 hsorted).1 y hy)
  have hgone (y : StatementId) (hy : y ∈ x :: ids) : e.store.graph y = none := by
    refine Option.eq_none_iff_forall_ne_some.2 fun c hc => ?_
    have hsome := hm.sub y c hc
    rw [hnone y hy] at hsome
    cases hsome
  have hnodup := nodup_of_pairwise_lt hsorted
  have hnew (st : Statement) (hst : st ∈ context :: assumptions) : H st.id = none :=
    hnone st.id (hmem st hst)
  have hfits := Graph.contextFits hlen hopens hrecords hscoped htracked hnodup hgone
  have hlaw := Graph.lawful_context hlen hopens hrecords hs.lawful hm.sub hscoped htracked hfresh
    hsorted hallow
  obtain ⟨hrests, hentered, hr⟩ :=
    maintained_enterContext (t := t) hlaw (hm.mono (.setAll_new hnew))
    (fun st hst => Graph.setAll_mem hfits.nodup hst) hfits
  exact ⟨hrests, sound_of_entered hs hnew (fun st hst => hpast st.id (hmem st hst)) hlaw
    hentered hr (evolves_enterContext (Graph.contextRecords_unnamed hrecords))⟩

/-- A context has been made under an id, and its assumptions under ids after that. -/
def Opened (H : Graph) (e : Engine) (owner : Option StatementId) (term : Term) (kind : ContextKind)
    (x : StatementId) (H' : Graph) (e' : Engine) : Prop :=
  ∃ context assumptions consequent dependencies inner,
    Enters H e (context :: assumptions) H' e' ∧ context.id = x ∧
      context.content = ⟨owner, term, dependencies,
        .context ⟨kind, assumptions.map Statement.id, consequent⟩⟩ ∧
      (x :: assumptions.map Statement.id).Pairwise (· < ·) ∧
      e.store.graph.Unfolds term dependencies inner kind ∧
      assumptions.length = inner.unproject.arity

theorem Opened.isContext {H' : Graph} {owner : Option StatementId} {kind : ContextKind}
    (h : Opened H e owner term kind x H' e') : e'.store.graph.IsContext x := by
  obtain ⟨context, assumptions, consequent, dependencies, inner, henters, rfl, hcontent, hsorted,
    -⟩ := h
  refine ⟨context.content, _, ?_, by rw [hcontent]⟩
  rw [henters.graph]
  exact Graph.setAll_mem (nodup_of_pairwise_lt hsorted) List.mem_cons_self

/-- Making a context under a new id, with new ids for its assumptions. -/
theorem grows_insertContext {owner : Option StatementId} {kind : ContextKind} (hs : Sound D t H e)
    (hctx : ∀ o, owner = some o → e.store.graph.IsContext o) (hroot : owner = none ↔ kind = .root)
    (hvisible : ∀ y ∈ term.freeVars, ∃ o, owner = some o ∧ e.store.graph.Sees o y)
    (hallow : D.Allows H term) (hfresh : H.Fresh x) (hpast : e.store.allocator.Past x) :
    Grows D t H e (insertContext t owner term kind x none) fun H' e' _ =>
      Opened H e owner term kind x H' e' := by
  refine grows_get_bind (grows_lift_bind hs answered_unfold fun ⟨dependencies, inner⟩ hunfold => ?_)
  obtain ⟨hunfolds, hunfolded⟩ := unfold_eq_ok hunfold
  have hopens : e.store.graph.Opens owner term kind dependencies inner :=
    ⟨hctx, hroot, hvisible, hunfolds, hunfolded⟩
  refine grows_bind (grows_allocateMany hs hpast inner.unproject.arity) ?_
  rintro H' e' ids hs' - ⟨rfl, hlen, hsorted, hids, hgraph⟩
  have hpasts (y : StatementId) (hy : y ∈ x :: ids) : e'.store.allocator.Past y := by
    rcases List.mem_cons.1 hy with rfl | hy
    · exact hids y (Or.inr hpast)
    · exact hids y (Or.inl hy)
  cases hrecords : contextRecords owner term kind x dependencies inner ids with
  | mk context assumptions =>
    obtain ⟨hrests, hs'', hg, henters⟩ := sound_enterContext hs' (hgraph ▸ hopens) hlen hrecords
      hallow hfresh hsorted hpasts
    obtain ⟨-, consequent, -, -, rfl, hmap, -⟩ := Graph.contextRecords_eq hrecords hlen
    have hentered := henters.graph
    rw [hgraph] at hentered
    refine grows_get_bind (grows_await hrests hs'' hg ?_)
    refine ⟨_, assumptions, consequent, dependencies, inner,
      ⟨henters.history, hentered⟩, rfl, ?_, ?_, hunfolds, ?_⟩
    · rw [hmap]
      rfl
    · rw [hmap]
      exact hsorted
    · rw [← List.length_map, hmap, hlen]

section Operations

variable {context general : StatementId} {argument : Term}

theorem isContext_of_require {s : Store} {st : Statement}
    (h : s.requireContext context = .ok st) : s.graph.IsContext context := by
  obtain ⟨hst, hctx⟩ := requireContext_eq_ok.1 h
  obtain ⟨data, hdata⟩ := Statement.isContext_iff.1 hctx
  exact ⟨st.content, data, graph_of_get? hst, hdata⟩

theorem grows_createRoot (hs : Sound D t H e) (hoffer : D.Offers e.store.graph term) :
    Grows D t H e (createRoot t term) fun _ _ _ => True := by
  refine grows_checked_bind hs answered_validate fun _ hvalid => ?_
  have hocc := occurrences_of_validate_none hvalid
  have hallow : D.Allows H term :=
    hoffer.allows (validate_eq_ok.1 hvalid).1 (fun y type hy => by rw [hocc] at hy; cases hy)
      hs.maintained.sub
  refine grows_bind (grows_allocate hs) ?_
  rintro H' e' x hs' - ⟨rfl, hfresh, hpast, -, -⟩
  refine grows_bind (grows_insertContext hs' (fun _ ho => by cases ho) ⟨fun _ => rfl, fun _ => rfl⟩
    (fun y hy => ?_) hallow hfresh hpast) fun H'' e'' _ hs'' _ _ => grows_pure hs'' trivial
  obtain ⟨type, hy⟩ := Term.mem_freeVars.1 hy
  rw [hocc] at hy
  cases hy

theorem grows_declare (hs : Sound D t H e) (hoffer : D.Offers e.store.graph value) :
    Grows D t H e (declare t context value) fun _ _ _ => True := by
  refine grows_checked_bind hs answered_requireContext fun _ hctx => ?_
  refine grows_bind (grows_allocate hs) ?_
  rintro H' e' x hs' - ⟨rfl, hfresh, hpast, hgraph, -⟩
  rw [← hgraph] at hoffer
  refine grows_bind (grows_insertDeclaration hs' (hgraph ▸ isContext_of_require hctx)
    (fun hchecks => ?_) hfresh hpast) fun H'' e'' _ hs'' _ _ => grows_pure hs'' trivial
  exact hoffer.allows_of_checks hchecks hs'.maintained.sub

theorem grows_specialize (hs : Sound D t H e) (hoffer : D.Offers e.store.graph argument) :
    Grows D t H e (specialize t context general argument) fun _ _ _ => True := by
  refine grows_checked_bind hs answered_requireContext fun _ hctx => ?_
  refine grows_bind (grows_allocate hs) ?_
  rintro H' e' x hs' - ⟨rfl, hfresh, hpast, hgraph, -⟩
  rw [← hgraph] at hoffer
  refine grows_bind (grows_insertSpecialization hs' (hgraph ▸ isContext_of_require hctx)
    (fun hchecks => ?_) hfresh hpast) fun H'' e'' _ hs'' _ _ => grows_pure hs'' trivial
  exact hoffer.allows_of_checks hchecks hs'.maintained.sub

/-- Opening a context inside another; a root is not made this way. -/
theorem grows_openContext {kind : ContextKind} (hkind : kind ≠ .root) (hs : Sound D t H e)
    (hoffer : D.Offers e.store.graph term) :
    Grows D t H e (openContext t context term kind) fun _ _ _ => True := by
  refine grows_checked_bind hs answered_requireContext fun _ hctx => ?_
  refine grows_get_bind (grows_lift_bind hs answered_validate fun _ hvalid => ?_)
  have hchecks := checks_of_validate hvalid
  have hallow := hoffer.allows_of_checks hchecks hs.maintained.sub
  refine grows_bind (grows_allocate hs) ?_
  rintro H' e' x hs' - ⟨rfl, hfresh, hpast, hgraph, -⟩
  rw [← hgraph] at hchecks
  refine grows_bind (grows_insertContext hs' (fun o ho => ?_)
    ⟨fun h => (by cases h), fun h => absurd h hkind⟩
    (fun y hy => ⟨context, rfl, hchecks.sees hy⟩) hallow hfresh hpast)
    fun H'' e'' _ hs'' _ _ => grows_pure hs'' trivial
  cases ho
  exact hgraph ▸ isContext_of_require hctx

end Operations

end Engine

end StatementGraph
