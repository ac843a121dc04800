import StatementGraph.Proofs.Acting
import StatementGraph.Proofs.Grounding

namespace StatementGraph

def Content.assumptions (c : Content) : List StatementId :=
  match c.kind with
  | .context data => data.assumptions
  | _ => []

def Content.IsAssumption (c : Content) : Prop := ∃ i, c.kind = .assumption i

theorem Content.IsAssumption.lists_nothing {c : Content} {y : StatementId} (h : c.IsAssumption) :
    y ∉ c.assumptions := by
  obtain ⟨i, hi⟩ := h
  rw [Content.assumptions, hi]
  exact List.not_mem_nil

theorem Statement.assumptions_content (st : Statement) :
    st.content.assumptions = st.assumptions := by
  rw [Content.assumptions, content, Statement.assumptions, contextData?]
  cases st.kind <;> rfl

theorem Statement.not_isAssumption_content {st : Statement} (h : st.isAssumption = false) :
    ¬st.content.IsAssumption := by
  intro hassumption
  cases h.symm.trans (isAssumption_iff.2 hassumption)

/-- A record to be made together with those of its assumptions. -/
structure Statement.Heads (top : Statement) (assumptions : List Statement) : Prop where
  plain : top.isAssumption = false
  listed : top.assumptions = assumptions.map Statement.id
  inside : ∀ a ∈ assumptions, a.isAssumption = true ∧ a.owner = some top.id
  apart : top.Apart
  unnamed : ∀ st ∈ top :: assumptions, st.identifier = none
  unproved : ∀ st ∈ top :: assumptions, st.proved = false

theorem Statement.Heads.isAssumption {top st : Statement} {assumptions : List Statement}
    (h : top.Heads assumptions) (hst : st ∈ assumptions) : st.content.IsAssumption :=
  isAssumption_iff.1 (h.inside st hst).1

namespace Graph

variable {G G' : Graph} {x : StatementId} {c : Content} {top : Statement}
  {assumptions l : List Statement}

/-- Contexts and assumptions belong together. -/
structure Paired (G : Graph) : Prop where
  listed : ∀ x c y, G x = some c → y ∈ c.assumptions →
    ∃ a, G y = some a ∧ a.IsAssumption ∧ a.owner = some x
  lister : ∀ y a, G y = some a → a.IsAssumption →
    ∃ x c, a.owner = some x ∧ G x = some c ∧ y ∈ c.assumptions

theorem paired_empty : Paired fun _ => none :=
  ⟨fun _ _ _ hx => (by cases hx), fun _ _ hy => by cases hy⟩

theorem setAll_of_mem (hx : x ∈ l.map Statement.id) :
    ∃ st ∈ l, st.id = x ∧ G.setAll l x = some st.content := by
  induction l generalizing G with
  | nil => cases hx
  | cons st rest ih =>
    by_cases hrest : x ∈ rest.map Statement.id
    · obtain ⟨st', hst', hid, hget⟩ := ih (G := G.set st.id (some st.content)) hrest
      exact ⟨st', List.mem_cons_of_mem _ hst', hid, hget⟩
    · have hid : x = st.id := (List.mem_cons.1 hx).resolve_right hrest
      refine ⟨st, List.mem_cons_self, hid.symm, (setAll_of_notMem hrest).trans ?_⟩
      rw [hid]
      exact set_self

theorem setAll_head (h : top.Heads assumptions) :
    G.setAll (top :: assumptions) top.id = some top.content := by
  have hout : top.id ∉ assumptions.map Statement.id := h.listed ▸ h.apart
  exact (setAll_of_notMem (G := G.set top.id (some top.content)) hout).trans set_self

theorem Paired.enter (h : G.Paired) (hh : top.Heads assumptions)
    (hnew : ∀ st ∈ top :: assumptions, G st.id = none) :
    (G.setAll (top :: assumptions)).Paired := by
  have hsub : G.Sub (G.setAll (top :: assumptions)) := .setAll_new hnew
  refine ⟨fun x c y hx hy => ?_, fun y a hy ha => ?_⟩
  · rcases setAll_cases hx with ⟨st, hst, rfl, rfl⟩ | hx
    · rcases List.mem_cons.1 hst with rfl | hst
      · rw [Statement.assumptions_content, hh.listed] at hy
        obtain ⟨a, ha, rfl, hget⟩ := setAll_of_mem (G := G.set st.id (some st.content)) hy
        exact ⟨a.content, hget, hh.isAssumption ha, (hh.inside a ha).2⟩
      · exact absurd hy (hh.isAssumption hst).lists_nothing
    · obtain ⟨a, ha, hassumption⟩ := h.listed x c y hx hy
      exact ⟨a, hsub y a ha, hassumption⟩
  · rcases setAll_cases hy with ⟨st, hst, rfl, rfl⟩ | hy
    · rcases List.mem_cons.1 hst with rfl | hst
      · exact absurd ha (Statement.not_isAssumption_content hh.plain)
      · refine ⟨top.id, top.content, (hh.inside st hst).2, setAll_head hh, ?_⟩
        rw [Statement.assumptions_content, hh.listed]
        exact List.mem_map_of_mem hst
    · obtain ⟨x, c, howner, hx, hmem⟩ := h.lister y a hy ha
      exact ⟨x, c, howner, hsub x c hx, hmem⟩

theorem Owned.enter (h : G.Owned) (hh : top.Heads assumptions)
    (hnew : ∀ st ∈ top :: assumptions, G st.id = none)
    (howner : G.Hosts top.owner) :
    (G.setAll (top :: assumptions)).Owned := by
  have hsub : G.Sub (G.setAll (top :: assumptions)) := .setAll_new hnew
  intro x c o hx ho
  rcases setAll_cases hx with ⟨st, hst, -, rfl⟩ | hx
  · rcases List.mem_cons.1 hst with rfl | hst
    · exact (howner o ho).mono hsub
    · cases (hh.inside st hst).2.symm.trans ho
      have hlisted : st.id ∈ top.assumptions := hh.listed ▸ List.mem_map_of_mem hst
      obtain ⟨data, hdata, -⟩ := Statement.mem_assumptions.1 hlisted
      exact ⟨top.content, data, setAll_head hh, hdata⟩
  · have hcontext : G.IsContext o := h x c o hx ho
    exact hcontext.mono hsub

/-- A statement goes with its assumptions. -/
theorem Paired.leave (h : G.Paired) (hx : G x = some c) (hplain : ¬c.IsAssumption)
    (hG : ∀ y, G' y = if y = x ∨ y ∈ c.assumptions then none else G y) : G'.Paired := by
  have hkept (y : StatementId) (cy : Content) (hy : G' y = some cy) :
      G y = some cy ∧ y ≠ x ∧ y ∉ c.assumptions := by
    rw [hG, ite_eq_iff, not_or] at hy
    rcases hy with ⟨-, hy⟩ | ⟨hout, hy⟩
    · cases hy
    · exact ⟨hy, hout⟩
  have hleft (y : StatementId) (cy : Content) (hy : G y = some cy) (hne : y ≠ x)
      (hout : y ∉ c.assumptions) : G' y = some cy := by
    rw [hG, if_neg (not_or.2 ⟨hne, hout⟩), hy]
  refine ⟨fun z cz y hz hy => ?_, fun y a hy ha => ?_⟩
  · obtain ⟨hz, hne, -⟩ := hkept z cz hz
    obtain ⟨a, ha, hassumption, howner⟩ := h.listed z cz y hz hy
    refine ⟨a, hleft y a ha ?_ fun hmem => ?_, hassumption, howner⟩
    · rintro rfl
      cases hx.symm.trans ha
      exact hplain hassumption
    · -- it would be inside both
      obtain ⟨a', ha', -, howner'⟩ := h.listed x c y hx hmem
      cases ha.symm.trans ha'
      cases howner.symm.trans howner'
      exact hne rfl
  · obtain ⟨hy, -, hout⟩ := hkept y a hy
    obtain ⟨z, cz, howner, hz, hmem⟩ := h.lister y a hy ha
    refine ⟨z, cz, howner, hleft z cz hz ?_ fun hlisted => ?_, hmem⟩
    · rintro rfl
      cases hx.symm.trans hz
      exact hout hmem
    · obtain ⟨cz', hz', hassumption, -⟩ := h.listed x c z hx hlisted
      cases hz.symm.trans hz'
      exact hassumption.lists_nothing hmem

theorem Paired.housed (h : G.Paired) (ho : G.Owned) : G.Housed where
  owned := ho
  assumptions x c data a hx hk := by
    have hlist : c.assumptions = data.assumptions := by rw [Content.assumptions, hk]
    rw [← hlist]
    constructor
    · intro ha
      obtain ⟨ca, hca, ⟨i, hi⟩, howner⟩ := h.listed x c a hx ha
      exact ⟨ca, i, hca, howner, hi⟩
    · rintro ⟨ca, i, hca, howner, hi⟩
      obtain ⟨y, cy, howner', hy, hmem⟩ := h.lister a ca hca ⟨i, hi⟩
      cases howner.symm.trans howner'
      cases hx.symm.trans hy
      exact hmem

end Graph

namespace Engine

open Store

variable {t : TransactionId} {e e' : Engine} {id : StatementId} {top : Statement}
  {assumptions : List Statement}

/-- Records are made: with their ids new, nothing else changes but flags that come to be set. -/
structure Entered (t : TransactionId) (top : Statement) (assumptions : List Statement)
    (e e' : Engine) : Prop where
  changes : Changes t e e'
  evolves : Evolves t e e'
  graph : e'.store.graph = e.store.graph.setAll (top :: assumptions)
  names : (∀ st ∈ top :: assumptions, e.store.graph st.id = none) →
    ∀ x, e'.store.nameOf x = e.store.nameOf x
  authorities : e'.store.authorities = e.store.authorities
  allocator : e'.store.allocator = e.store.allocator
  raises : e.store.Indexed → (∀ st ∈ top :: assumptions, e.store.graph st.id = none) →
    e.store.Raises e'.store

theorem Entered.of_reflagged (hh : top.Heads assumptions) (hc : Changes t e e')
    (he : Evolves t e e') (hr : (e.store.writeAll (top :: assumptions)).Reflagged e'.store)
    (hraises : e.store.Indexed → (e.store.writeAll (top :: assumptions)).Raises e'.store) :
    Entered t top assumptions e e' where
  changes := hc
  evolves := he
  graph := hr.graph.trans graph_writeAll
  names hnew x := (hr.names x).trans
    (nameOf_writeAll hh.unnamed (fun st hst => nameOf_of_dead (hnew st hst)) x)
  authorities := hr.authorities.trans authorities_writeAll
  allocator := hr.allocator.trans allocator_writeAll
  raises hi hnew := (raises_writeAll hi hnew hh.unproved).trans (hraises hi)

theorem entered_enter (hh : top.Heads []) : Entered t top [] e (e.enter t top).engine := by
  have hname := hh.unnamed top List.mem_cons_self
  have hadded : (addRecord t e top).store = e.store.writeAll [top] := store_addRecord
  refine .of_reflagged hh (changes_enter hh.apart hname) (evolves_enter hname) reflagged_enter ?_
  intro hi
  have hi' : (e.store.writeAll [top]).Indexed := hi.writeAll
  rw [← hadded] at hi' ⊢
  exact raises_propagation hi'

theorem entered_enterContext (hh : top.Heads assumptions) :
    Entered t top assumptions e (e.enterContext t top assumptions).engine := by
  have hapart (st : Statement) (hst : st ∈ top :: assumptions) : st.Apart := by
    rcases List.mem_cons.1 hst with rfl | hst
    · exact hh.apart
    · rw [Statement.Apart, ← Statement.assumptions_content]
      exact (hh.isAssumption hst).lists_nothing
  refine .of_reflagged hh (changes_enterContext hapart hh.unnamed)
    (evolves_enterContext hh.unnamed) reflagged_enterContext fun hi => ?_
  have hi' : (e.store.writeAll (top :: assumptions)).Indexed := hi.writeAll
  rw [← store_addRecords (t := t)] at hi' ⊢
  exact (raises_propagation hi').trans (raises_propagation (indexed_propagation hi'))

/-- What inserting a statement comes to, with an id and with ids for its assumptions. -/
inductive Inserted (t : TransactionId) (id : StatementId) (ids : List StatementId) (e : Engine) :
    Except Failure Unit × Engine → Prop where
  | refused (f : Failure) : Inserted t id ids e (.error f, e)
  | made {top : Statement} {assumptions : List Statement} {e' : Engine} (hid : top.id = id)
      (hids : ∀ a ∈ assumptions, a.id ∈ ids) (hh : top.Heads assumptions)
      (howner : e.store.graph.Hosts top.owner) (h : Entered t top assumptions e e') :
      Inserted t id ids e (.ok (), e')

theorem inserted_await {run : Propagation} {ids : List StatementId}
    (h : Inserted t id ids e (.ok (), run.engine)) :
    Inserted t id ids e ((await run).perform e) := by
  rcases await_cases run e with hrun | hrun <;> rw [hrun]
  · exact h
  · exact .refused _

theorem heads_nil {st : Statement} (hname : st.identifier = none) (hflag : st.proved = false)
    (hplain : st.isAssumption = false) (hcontext : st.isContext = false) : st.Heads [] := by
  have hnone : st.assumptions = [] := by
    rw [Statement.isContext, Option.isSome_eq_false_iff, Option.isNone_iff_eq_none] at hcontext
    rw [Statement.assumptions, hcontext]
    rfl
  refine ⟨hplain, hnone, fun a ha => (by cases ha), ?_, fun st' hst' => ?_, fun st' hst' => ?_⟩
  · rw [Statement.Apart, hnone]
    exact List.not_mem_nil
  · rw [List.mem_singleton.1 hst']
    exact hname
  · rw [List.mem_singleton.1 hst']
    exact hflag

theorem inserted_declaration {context : StatementId} {value : Term}
    (h : e.store.graph.IsContext context) :
    Inserted t id [] e ((insertDeclaration t context value id).perform e) := by
  rw [insertDeclaration, perform_get_bind]
  cases hrecord : e.store.declarationRecord context value id with
  | error f => exact .refused f
  | ok st =>
    obtain ⟨-, term, -, rfl⟩ := declarationRecord_eq_ok.1 hrecord
    rw [perform_ok_bind, perform_get_bind]
    exact inserted_await (.made rfl (fun a ha => by cases ha) (heads_nil rfl rfl rfl rfl) h.hosts
      (entered_enter (heads_nil rfl rfl rfl rfl)))

theorem inserted_specialization {context general : StatementId} {argument : Term}
    (h : e.store.graph.IsContext context) :
    Inserted t id [] e ((insertSpecialization t context general argument id).perform e) := by
  rw [insertSpecialization, perform_get_bind]
  cases hrecord : e.store.specializationRecord context general argument id with
  | error f => exact .refused f
  | ok st =>
    obtain ⟨hid, hname, hkind, howner, hflag⟩ := specializationRecord_fields hrecord
    have hh : st.Heads [] := by
      apply heads_nil hname hflag
      · rw [Statement.isAssumption, hkind]
      · rw [Statement.isContext, Statement.contextData?, hkind]
        rfl
    rw [perform_ok_bind, perform_get_bind]
    exact inserted_await
      (.made hid (fun a ha => by cases ha) hh (howner ▸ h.hosts) (entered_enter hh))

theorem heads_contextRecords {owner : Option StatementId} {term inner : Term} {kind : ContextKind}
    {dependencies : IdSet} {ids : List StatementId} (h : id ∉ ids) :
    (contextRecords owner term kind id dependencies inner ids).1.Heads
      (contextRecords owner term kind id dependencies inner ids).2 where
  plain := rfl
  listed := by
    change (inner.unproject.peel ids).1.map Prod.fst = List.map _ (List.map _ _)
    rw [List.map_map]
    conv_lhs => rw [← List.zipIdx_map_fst 0 (inner.unproject.peel ids).1, List.map_map]
    rfl
  inside a ha := by
    obtain ⟨entry, -, rfl⟩ := List.mem_map.1 ha
    exact ⟨rfl, rfl⟩
  apart := contextRecords_apart h _ List.mem_cons_self
  unnamed := Graph.contextRecords_unnamed rfl
  unproved st hst := by
    rcases List.mem_cons.1 hst with rfl | hst
    · rfl
    · obtain ⟨entry, -, rfl⟩ := List.mem_map.1 hst
      rfl

theorem mem_contextRecords {owner : Option StatementId} {term inner : Term} {kind : ContextKind}
    {dependencies : IdSet} {ids : List StatementId} {a : Statement}
    (ha : a ∈ (contextRecords owner term kind id dependencies inner ids).2) : a.id ∈ ids := by
  obtain ⟨entry, hentry, rfl⟩ := List.mem_map.1 ha
  exact mem_peel (List.fst_mem_of_mem_zipIdx hentry)

theorem inserted_contextRecords {owner : Option StatementId} {term inner : Term}
    {kind : ContextKind} {dependencies : IdSet} {ids : List StatementId} (h : id ∉ ids)
    (howner : e.store.graph.Hosts owner) :
    Inserted t id ids e ((await (e.enterContext t
      (contextRecords owner term kind id dependencies inner ids).1
      (contextRecords owner term kind id dependencies inner ids).2)).perform e) :=
  inserted_await (.made rfl (fun _ => mem_contextRecords) (heads_contextRecords h) howner
    (entered_enterContext (heads_contextRecords h)))

theorem inserted_context {owner : Option StatementId} {term : Term} {kind : ContextKind}
    {ids : List StatementId} (h : id ∉ ids) (howner : e.store.graph.Hosts owner) :
    Inserted t id ids e ((insertContext t owner term kind id (some ids)).perform e) := by
  rw [insertContext, perform_get_bind]
  cases e.store.unfold owner term kind with
  | error f => exact .refused f
  | ok opened =>
    change Inserted t id ids e
      ((assumptionIds id opened.2.unproject.arity (some ids) >>= _).perform e)
    rw [assumptionIds]
    split
    · exact .refused _
    · rw [pure_bind, perform_get_bind]
      exact inserted_contextRecords h howner

end Engine

end StatementGraph
