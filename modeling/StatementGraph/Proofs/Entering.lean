import StatementGraph.Mutation.Construct
import StatementGraph.Proofs.Maintained

namespace StatementGraph

theorem Graph.Closed.setAll {G : Graph} {l : List Statement} (hc : G.Closed)
    (hs : G.Sub (G.setAll l))
    (howner : ∀ st ∈ l, ∀ o, st.owner = some o → ∃ c, G.setAll l o = some c)
    (hdep : ∀ st ∈ l, ∀ d ∈ st.dependencies, ∃ c, G.setAll l d = some c)
    (hassumption : ∀ st ∈ l, ∀ a ∈ st.assumptions, ∃ c, G.setAll l a = some c) :
    (G.setAll l).Closed where
  owner x c o hx ho := by
    rcases setAll_cases hx with ⟨st, hst, -, rfl⟩ | hx
    · exact howner st hst o ho
    · obtain ⟨c', hc'⟩ := hc.owner x c o hx ho
      exact ⟨c', hs o c' hc'⟩
  dependency x c d hx hd := by
    rcases setAll_cases hx with ⟨st, hst, -, rfl⟩ | hx
    · exact hdep st hst d hd
    · obtain ⟨c', hc'⟩ := hc.dependency x c d hx hd
      exact ⟨c', hs d c' hc'⟩
  assumption x c data a hx hk ha := by
    rcases setAll_cases hx with ⟨st, hst, -, rfl⟩ | hx
    · refine hassumption st hst a ?_
      simp only [Statement.content] at hk
      simpa [Statement.assumptions, Statement.contextData?, hk] using ha
    · obtain ⟨c', hc'⟩ := hc.assumption x c data a hx hk ha
      exact ⟨c', hs a c' hc'⟩

namespace Store

variable {s s' : Store} {H : Graph} {l : List Statement}

theorem Maintained.of_written (h : s.Maintained H) (hl : ∀ st ∈ l, H st.id = some st.content)
    (hnew : ∀ st ∈ l, s.graph st.id = none) (hclosed : (s.graph.setAll l).Closed)
    (hr : (s.writeAll l).Reflagged s') (hs : s'.Settled) : s'.Maintained H := by
  have hgraph : s'.graph = s.graph.setAll l := hr.graph.trans graph_writeAll
  have hauthorities : s'.authorities = s.authorities := hr.authorities.trans authorities_writeAll
  refine hs.maintained ?_ (hgraph ▸ hclosed) fun x a ha => ?_
  · rw [hgraph]
    exact h.sub.setAll hl
  · have ha : s.authority? x = some a := by rwa [authority?, hauthorities] at ha
    obtain ⟨hid, c, hc⟩ := h.authority ha
    exact ⟨hid, c, hgraph ▸ Graph.Sub.setAll_new hnew x c hc⟩

end Store

namespace Engine

open Store Propagation

variable {e : Engine} {t : TransactionId} {H : Graph} {D : Discipline} {st : Statement}
  {l : List Statement}

theorem store_addRecord : (addRecord t e st).store = e.store.write st := by
  rw [addRecord, store_notify, store_put]

theorem store_addRecords : (l.foldl (addRecord t) e).store = e.store.writeAll l := by
  induction l generalizing e with
  | nil => rfl
  | cons st rest ih =>
    rw [List.foldl_cons, ih, store_addRecord]
    rfl

theorem reflagged_enter : (e.store.writeAll [st]).Reflagged (e.enter t st).engine.store := by
  rw [← store_addRecords (t := t)]
  exact reflagged_propagation

theorem reflagged_enterContext {assumptions : List Statement} :
    (e.store.writeAll (st :: assumptions)).Reflagged
      (e.enterContext t st assumptions).engine.store := by
  rw [← store_addRecords (t := t)]
  exact (reflagged_propagation (e := (st :: assumptions).foldl (addRecord t) e)).trans
    reflagged_propagation

theorem approaches_addRecords (hH : H.Lawful D) (h : e.store.Maintained H)
    (hl : ∀ st ∈ l, H st.id = some st.content) (hnew : ∀ st ∈ l, e.store.graph st.id = none)
    (hflag : ∀ st ∈ l, st.proved = false) (hclosed : (e.store.graph.setAll l).Closed) :
    (l.foldl (addRecord t) e).store.Approaches fun x => x ∈ l.map Statement.id := by
  have hsub : (e.store.writeAll l).graph.Sub H := by
    rw [graph_writeAll]
    exact h.sub.setAll hl
  rw [store_addRecords]
  refine approaches_writeAll (h.settled hH) h.closed.owner hnew hflag ?_ (hH.tracked_of_sub hsub)
  refine hH.forest_of_sub hsub ?_
  rw [graph_writeAll]
  exact hclosed.owner

theorem maintained_enter (hH : H.Lawful D) (h : e.store.Maintained H)
    (hst : H st.id = some st.content) (hnew : e.store.graph st.id = none)
    (hflag : st.proved = false) (hkind : st.isContext = false)
    (howner : ∀ o, st.owner = some o → ∃ c, e.store.graph o = some c)
    (hdep : ∀ d ∈ st.dependencies, ∃ c, e.store.graph d = some c) :
    (e.enter t st).queue = [] ∧ (e.enter t st).engine.store.Maintained H ∧
      (e.store.writeAll [st]).Reflagged (e.enter t st).engine.store := by
  have hl : ∀ st' ∈ [st], H st'.id = some st'.content := by simpa using hst
  have hnew' : ∀ st' ∈ [st], e.store.graph st'.id = none := by simpa using hnew
  have hsub := Graph.Sub.setAll_new hnew'
  have hnone : st.assumptions = [] := by
    have hdata : st.contextData? = none := by simpa [Statement.isContext] using hkind
    rw [Statement.assumptions, hdata]
    rfl
  have hclosed : (e.store.graph.setAll [st]).Closed := by
    refine h.closed.setAll hsub ?_ ?_ ?_ <;> simp only [List.mem_singleton, forall_eq]
    · intro o ho
      obtain ⟨c, hc⟩ := howner o ho
      exact ⟨c, hsub o c hc⟩
    · intro d hd
      obtain ⟨c, hc⟩ := hdep d hd
      exact ⟨c, hsub d c hc⟩
    · simp [hnone]
  have happroaches := approaches_addRecords (t := t) hH h hl hnew' (by simpa using hflag) hclosed
  have happroaches : (addRecord t e st).store.Approaches fun x => x ∈ [st.id] ∨ False :=
    happroaches.imp fun _ => Or.inl
  obtain ⟨hsettled, hrests⟩ := approaches_propagation (t := t) happroaches (covers_all _ _ true)
    fun _ _ => trivial
  exact ⟨hrests, h.of_written hl hnew' hclosed reflagged_enter hsettled, reflagged_enter⟩

/-- The records of a new context name only statements of the graph and one another. -/
structure ContextFits (G : Graph) (context : Statement) (assumptions : List Statement) : Prop where
  nodup : ((context :: assumptions).map Statement.id).Nodup
  new : ∀ st ∈ context :: assumptions, G st.id = none
  unflagged : ∀ st ∈ context :: assumptions, st.proved = false
  owner : ∀ o, context.owner = some o → ∃ c, G o = some c
  dependency : ∀ d ∈ context.dependencies, ∃ c, G d = some c
  listed : context.assumptions = assumptions.map Statement.id
  inside : ∀ a ∈ assumptions, a.owner = some context.id ∧ a.isAssumption = true
  mentions : ∀ a ∈ assumptions, ∀ d ∈ a.dependencies,
    (∃ c, G d = some c) ∨ d ∈ assumptions.map Statement.id

variable {context : Statement} {assumptions : List Statement} {G : Graph} {x : StatementId}

theorem ContextFits.kind_ne (h : ContextFits G context assumptions) {a : Statement}
    (ha : a ∈ assumptions) (data : ContextData) : a.kind ≠ .context data := by
  intro hk
  have hassumption := (h.inside a ha).2
  simp [Statement.isAssumption, hk] at hassumption

theorem ContextFits.closed (h : ContextFits G context assumptions) (hc : G.Closed) :
    (G.setAll (context :: assumptions)).Closed := by
  have hs : G.Sub (G.setAll (context :: assumptions)) := Graph.Sub.setAll_new h.new
  have hlive (st : Statement) (hst : st ∈ context :: assumptions) :
      ∃ c, G.setAll (context :: assumptions) st.id = some c :=
    ⟨st.content, Graph.setAll_mem h.nodup hst⟩
  have hold (x : StatementId) (hx : ∃ c, G x = some c) :
      ∃ c, G.setAll (context :: assumptions) x = some c := by
    obtain ⟨c, hc⟩ := hx
    exact ⟨c, hs x c hc⟩
  have hassumption (x : StatementId) (hx : x ∈ assumptions.map Statement.id) :
      ∃ c, G.setAll (context :: assumptions) x = some c := by
    obtain ⟨a, ha, rfl⟩ := List.mem_map.1 hx
    exact hlive a (List.mem_cons_of_mem _ ha)
  refine hc.setAll hs (fun st hst o ho => ?_) (fun st hst d hd => ?_) fun st hst a ha => ?_
  · rcases List.mem_cons.1 hst with rfl | hst
    · exact hold o (h.owner o ho)
    · cases (h.inside st hst).1.symm.trans ho
      exact hlive context List.mem_cons_self
  · rcases List.mem_cons.1 hst with rfl | hst
    · exact hold d (h.dependency d hd)
    · exact (h.mentions st hst d hd).elim (hold d) (hassumption d)
  · rcases List.mem_cons.1 hst with rfl | hst
    · rw [h.listed] at ha
      exact hassumption a ha
    · have hnone : st.contextData? = none := by
        rw [Statement.contextData?]
        split
        · exact absurd ‹_› (h.kind_ne hst _)
        · rfl
      rw [Statement.assumptions, hnone] at ha
      cases ha

theorem ContextFits.owned (h : ContextFits G context assumptions) (hc : G.Closed)
    (hx : (G.setAll (context :: assumptions)).ownerOf x = some context.id) :
    ∃ a ∈ assumptions, a.id = x := by
  have hnew : G context.id = none := h.new context List.mem_cons_self
  obtain ⟨c, hc', ho⟩ := Graph.ownerOf_eq.1 hx
  rcases Graph.setAll_cases hc' with ⟨st, hst, rfl, rfl⟩ | hc'
  · rcases List.mem_cons.1 hst with rfl | hst
    · obtain ⟨c, hc⟩ := h.owner _ ho
      rw [hnew] at hc
      cases hc
    · exact ⟨st, hst, rfl⟩
  · obtain ⟨c', hc'⟩ := hc.owner x c _ hc' ho
    rw [hnew] at hc'
    cases hc'

theorem ContextFits.covers (h : ContextFits G context assumptions) (hc : G.Closed)
    (hf : (G.setAll (context :: assumptions)).Forest) :
    Covers ⟨false, true⟩ (G.setAll (context :: assumptions))
      (· ∈ assumptions.map Statement.id) (· = context.id) := by
  have hnew (x : StatementId) (hx : x ∈ assumptions.map Statement.id) : G x = none := by
    obtain ⟨a, ha, rfl⟩ := List.mem_map.1 hx
    exact h.new a (List.mem_cons_of_mem _ ha)
  have hcontent (a : Statement) (ha : a ∈ assumptions) :
      G.setAll (context :: assumptions) a.id = some a.content :=
    Graph.setAll_mem h.nodup (List.mem_cons_of_mem _ ha)
  refine ⟨fun y z c hy hz hdep => ?_, fun _ _ _ _ hmode => Bool.noConfusion hmode,
    fun y z hy hsolves _ => ?_⟩
  · rcases Graph.setAll_cases hz with ⟨st, hst, rfl, rfl⟩ | hz
    · rcases List.mem_cons.1 hst with rfl | hst
      · obtain ⟨c, hc'⟩ := h.dependency y hdep
        rw [hnew y hy] at hc'
        cases hc'
      · exact List.mem_map_of_mem hst
    · obtain ⟨c', hc'⟩ := hc.dependency z c y hz hdep
      rw [hnew y hy] at hc'
      cases hc'
  · obtain ⟨a, ha, rfl⟩ := List.mem_map.1 hy
    obtain ⟨-, ⟨c, o, hca, ho, hw⟩, cz, -, data, hz, hk, -⟩ := hsolves
    rw [hcontent a ha] at hca
    cases hca
    cases (h.inside a ha).1.symm.trans ho
    rcases Relation.ReflTransGen.cases_tail hw with hz' | ⟨w, hw, how⟩
    · exact hz'.symm
    · -- the context is around an assumption, which is no context and has nothing inside
      obtain ⟨b, hb, rfl⟩ := h.owned hc how
      rcases Relation.ReflTransGen.cases_tail hw with rfl | ⟨v, -, hov⟩
      · rw [hcontent b hb] at hz
        cases hz
        exact absurd hk (h.kind_ne hb data)
      · obtain ⟨-, cb, data', hcb, hkb⟩ := hf.owner hov
        rw [hcontent b hb] at hcb
        cases hcb
        exact absurd hkb (h.kind_ne hb data')

theorem maintained_enterContext (hH : H.Lawful D) (h : e.store.Maintained H)
    (hl : ∀ st ∈ context :: assumptions, H st.id = some st.content)
    (hfits : ContextFits e.store.graph context assumptions) :
    (e.enterContext t context assumptions).queue = [] ∧
      (e.enterContext t context assumptions).engine.store.Maintained H ∧
      (e.store.writeAll (context :: assumptions)).Reflagged
        (e.enterContext t context assumptions).engine.store := by
  have hclosed := hfits.closed h.closed
  have happroaches :=
    approaches_addRecords (t := t) hH h hl hfits.new hfits.unflagged hclosed
  have hr := @reflagged_enterContext e t context assumptions
  rw [enterContext] at hr ⊢
  generalize hwritten : (context :: assumptions).foldl (addRecord t) e = written at happroaches hr ⊢
  have hstore : written.store = e.store.writeAll (context :: assumptions) := by
    rw [← hwritten, store_addRecords]
  have hgraph : written.store.graph = e.store.graph.setAll (context :: assumptions) := by
    rw [hstore, graph_writeAll]
  have hcovers := hfits.covers h.closed (hgraph ▸ happroaches.forest)
  rw [← hgraph] at hcovers
  -- the first propagation leaves the context alone, which is what the second one starts from
  obtain ⟨hfirst, hinside⟩ := approaches_propagation (t := t) (X := (· = context.id))
    (happroaches.imp fun x hx => (List.mem_cons.1 hx).symm) hcovers fun _ hz => hz
  have hsecond := hfirst.imp fun x hx =>
    Or.inl (b := False) (List.mem_singleton.2 hx : x ∈ [context.id])
  obtain ⟨hsettled, houtside⟩ := approaches_propagation (t := t) hsecond (covers_all _ _ true)
    fun _ _ => trivial
  refine ⟨?_, h.of_written hl hfits.new hclosed hr hsettled, hr⟩
  dsimp only
  rw [hinside, houtside]
  rfl

end Engine

end StatementGraph
