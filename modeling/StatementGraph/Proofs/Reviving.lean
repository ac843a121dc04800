import StatementGraph.Proofs.Withdrawing

namespace StatementGraph

/-- An entry of the undo log whose ids are not in use and will not be handed out. -/
structure Deleted.Dormant (A : Allocator) (G : Graph) (d : Deleted) : Prop where
  dead : ∀ x ∈ d.ids, G x = none
  past : ∀ x ∈ d.ids, A.Past x
  apart : d.statement.Apart
  listed : ∀ st ∈ d.assumptions, st.id ∈ d.statement.assumptions
  authority : ∀ a, d.authority = some a → a.statement = d.statement.id

namespace Engine

open Store

variable {t : TransactionId} {S e e' : Engine} {x : StatementId} {st : Statement}
  {d : Deleted} {done l : List Deleted} {state : RestoreReport × Engine}

theorem Inserted.mono {ids ids' : List StatementId} {out : Except Failure Unit × Engine}
    (h : Inserted t x ids e out) (hsub : ids ⊆ ids') : Inserted t x ids' e out := by
  cases h with
  | refused f => exact .refused f
  | made hid hids hh howner h => exact .made hid (fun a ha => hsub (hids a ha)) hh howner h

/-- A statement is rebuilt with its id and the ids of its assumptions, or not at all. -/
theorem inserted_rebuildDeleted (hapart : st.Apart)
    (hpast : ∀ x ∈ st.id :: st.assumptions, e.store.allocator.Past x)
    (hnext : e.store.allocator.next ≠ 0) :
    Inserted t st.id st.assumptions e ((rebuildDeleted t st).perform e) := by
  obtain ⟨hid, hassumptions⟩ := List.forall_mem_cons.1 hpast
  rw [rebuildDeleted, perform_get_bind]
  dsimp only
  refine guard_cases (P := fun m => Inserted t st.id st.assumptions e (m.perform e)) _
    (fun f => .refused f) fun howner => ?_
  rw [perform_bind, perform_reserve hid hnext]
  dsimp only
  split
  case h_1 _ ho => exact (inserted_declaration (howner _ ho)).mono (List.nil_subset _)
  case h_2 _ ho => exact (inserted_specialization (howner _ ho)).mono (List.nil_subset _)
  case h_3 _ data hkind =>
    have hlist : st.assumptions = data.assumptions := by
      rw [Statement.assumptions, Statement.contextData?, hkind]
      rfl
    rw [Statement.Apart, hlist] at hapart
    rw [hlist] at hassumptions ⊢
    cases e.store.validate st.owner st.term with
    | error f => exact .refused f
    | ok u =>
      change Inserted t st.id data.assumptions e ((data.assumptions.forM reserve >>= _).perform e)
      rw [perform_bind, perform_reserveEach hassumptions hnext]
      exact inserted_context hapart howner
  case h_4 => exact .refused _

/-! ### Rebuilding -/

/-- An engine against the one in which restoring a batch started, after some of its entries. -/
structure Revived (t : TransactionId) (S : Engine) (done : List Deleted) (e : Engine) : Prop where
  orderly : e.Orderly
  evolves : Evolves t S e
  allocator : e.store.allocator = S.store.allocator
  grown : S.store.graph.Sub e.store.graph
  new : ∀ x c, e.store.graph x = some c → S.store.graph x = some c ∨ ∃ d ∈ done, x ∈ d.ids
  names : ∀ x, e.store.nameOf x = S.store.nameOf x
  authorities : e.store.authorities = S.store.authorities
  paired : e.store.graph.Paired
  owned : S.store.graph.Owned → e.store.graph.Owned
  raises : S.store.Raises e.store

theorem revived_start (ho : S.Orderly) (hp : S.store.graph.Paired) : Revived t S [] S where
  orderly := ho
  evolves := .refl t S
  allocator := rfl
  grown := .refl _
  new _ _ hx := Or.inl hx
  names _ := rfl
  authorities := rfl
  paired := hp
  owned := id
  raises := .refl _

theorem Revived.inserted {out : Except Failure Unit × Engine} (h : Revived t S done e)
    (hd : d.Dormant S.store.allocator S.store.graph) (hapart : ∀ d' ∈ done, d'.Apart d)
    (hi : Inserted t d.statement.id d.statement.assumptions e out) :
    Revived t S (done ++ [d]) out.2 ∧ e.store.graph.Sub out.2.store.graph ∧
      (out.1 = .ok () → ∃ c, out.2.store.graph d.statement.id = some c) := by
  have hdead (x : StatementId) (hx : x ∈ d.ids) : e.store.graph x = none := by
    apply Option.eq_none_iff_forall_ne_some.2
    intro c hc
    rcases h.new x c hc with hc | ⟨d', hd', hx'⟩
    · rw [hd.dead x hx] at hc
      cases hc
    · exact hapart d' hd' hx' hx
  cases hi with
  | refused f =>
    refine ⟨{ h with new := fun x c hx => ?_ }, .refl _, fun hok => by cases hok⟩
    exact (h.new x c hx).imp_right fun ⟨d', hd', hx⟩ => ⟨d', List.mem_append_left _ hd', hx⟩
  | @made top assumptions e' hid hids hh howner he =>
    have hmem (st : Statement) (hst : st ∈ top :: assumptions) : st.id ∈ d.ids := by
      rcases List.mem_cons.1 hst with rfl | hst
      · exact hid ▸ List.mem_cons_self
      · exact List.mem_cons_of_mem _ (hids st hst)
    have hnew (st : Statement) (hst : st ∈ top :: assumptions) := hdead st.id (hmem st hst)
    have hsub : e.store.graph.Sub e'.store.graph := by
      rw [he.graph]
      exact .setAll_new hnew
    refine ⟨⟨h.orderly.changes he.changes, h.evolves.trans he.evolves,
      he.allocator.trans h.allocator, h.grown.trans hsub, fun x c hx => ?_,
      fun x => (he.names hnew x).trans (h.names x), he.authorities.trans h.authorities, ?_,
      fun hS => ?_, h.raises.trans (he.raises h.orderly.filed.indexed hnew)⟩, hsub,
      fun _ => ⟨top.content, ?_⟩⟩
    · rw [he.graph] at hx
      rcases Graph.setAll_cases hx with ⟨st, hst, rfl, -⟩ | hx
      · exact Or.inr ⟨d, List.mem_append_right _ (List.mem_singleton_self d), hmem st hst⟩
      · exact (h.new x c hx).imp_right fun ⟨d', hd', hx⟩ => ⟨d', List.mem_append_left _ hd', hx⟩
    · rw [he.graph]
      exact h.paired.enter hh hnew
    · rw [he.graph]
      exact (h.owned hS).enter hh hnew howner
    · rw [he.graph, ← hid]
      exact Graph.setAll_head hh

/-- What is listed as restored is there. -/
theorem Revived.rebuildAll (h : Revived t S done state.2) (hnext : S.store.allocator.next ≠ 0)
    (hd : ∀ d ∈ l, d.Dormant S.store.allocator S.store.graph)
    (hapart : (done ++ l).Pairwise Deleted.Apart)
    (hlive : ∀ x ∈ state.1.restored, ∃ c, state.2.store.graph x = some c) :
    Revived t S (done ++ l) (l.foldl (rebuildNext t) state).2 ∧
      ∀ x ∈ (l.foldl (rebuildNext t) state).1.restored,
        ∃ c, (l.foldl (rebuildNext t) state).2.store.graph x = some c := by
  induction l generalizing done state with
  | nil =>
    rw [List.append_nil]
    exact ⟨h, hlive⟩
  | cons d rest ih =>
    obtain ⟨hd, hrest⟩ := List.forall_mem_cons.1 hd
    have hpast (x : StatementId) (hx : x ∈ d.ids) : state.2.store.allocator.Past x := by
      rw [h.allocator]
      exact hd.past x hx
    have hinserted : Inserted t d.statement.id d.statement.assumptions state.2
        ((rebuildDeleted t d.statement).perform state.2) :=
      inserted_rebuildDeleted hd.apart hpast (h.allocator ▸ hnext)
    have hothers (d' : Deleted) (hd' : d' ∈ done) : d'.Apart d :=
      (List.pairwise_append.1 hapart).2.2 d' hd' d List.mem_cons_self
    obtain ⟨hstep, hsub, hok⟩ := h.inserted hd hothers hinserted
    have hkept (x : StatementId) (hx : x ∈ state.1.restored) :
        ∃ c, ((rebuildDeleted t d.statement).perform state.2).2.store.graph x = some c := by
      obtain ⟨c, hc⟩ := hlive x hx
      exact ⟨c, hsub x c hc⟩
    rw [List.append_cons] at hapart ⊢
    rw [List.foldl_cons, rebuildNext]
    cases hrun : (rebuildDeleted t d.statement).perform state.2 with
    | mk r e' =>
      rw [hrun] at hstep hok hkept
      cases r with
      | ok u =>
        refine @ih _ (_, e') hstep hrest hapart fun x hx => ?_
        rcases List.mem_append.1 hx with hx | hx
        · exact hkept x hx
        · exact List.mem_singleton.1 hx ▸ hok rfl
      | error f => exact @ih _ (_, e') hstep hrest hapart hkept

/-! ### Names and authorities -/

/-- Names of the given statements are brought back, or reported as taken. -/
structure Renamed (t : TransactionId) (ids : List StatementId)
    (state state' : RestoreReport × Engine) : Prop where
  evolves : Evolves t state.2 state'.2
  indexed : state.2.store.Indexed → state'.2.store.Indexed
  restored : state'.1.restored = state.1.restored
  unnamed : state.1.unnamed ⊆ state'.1.unnamed
  allocator : state'.2.store.allocator = state.2.store.allocator
  authorities : state'.2.store.authorities = state.2.store.authorities
  graph : state.2.store.Indexed → state'.2.store.graph = state.2.store.graph
  names : state.2.store.Indexed → ∀ x ∉ ids, state'.2.store.nameOf x = state.2.store.nameOf x
  raises : state.2.store.Indexed → state.2.store.Raises state'.2.store

theorem Renamed.refl (state : RestoreReport × Engine) : Renamed t [] state state :=
  ⟨.refl t _, id, rfl, fun _ h => h, rfl, rfl, fun _ => rfl, fun _ _ _ => rfl, fun _ => .refl _⟩

theorem Renamed.trans {ids ids' : List StatementId} {state' state'' : RestoreReport × Engine}
    (h : Renamed t ids state state') (h' : Renamed t ids' state' state'') :
    Renamed t (ids ++ ids') state state'' where
  evolves := h.evolves.trans h'.evolves
  indexed hi := h'.indexed (h.indexed hi)
  restored := h'.restored.trans h.restored
  unnamed _ hx := h'.unnamed (h.unnamed hx)
  allocator := h'.allocator.trans h.allocator
  authorities := h'.authorities.trans h.authorities
  graph hi := (h'.graph (h.indexed hi)).trans (h.graph hi)
  names hi x hx := by
    rw [List.mem_append, not_or] at hx
    exact (h'.names (h.indexed hi) x hx.2).trans (h.names hi x hx.1)
  raises hi := (h.raises hi).trans (h'.raises (h.indexed hi))

theorem restoreNextName_cases (state : RestoreReport × Engine) (st : Statement) :
    st.identifier = none ∧ restoreNextName t state st = state ∨
      ∃ name, st.identifier = some name ∧
        (restoreNextName t state st =
            ({ state.1 with unnamed := state.1.unnamed ++ [(st.id, name)] }, state.2) ∨
          ∃ st', state.2.store.get? st.id = some st' ∧
            state.2.store.lookupName st'.owner name = none ∧
            restoreNextName t state st =
              (state.1, state.2.put t { st' with identifier := some name })) := by
  obtain ⟨report, e⟩ := state
  rw [restoreNextName]
  cases hname : st.identifier with
  | none => exact Or.inl ⟨rfl, rfl⟩
  | some name =>
    refine Or.inr ⟨name, rfl, ?_⟩
    dsimp only
    cases hout : e.restoreName t st.id name with
    | mk free e' =>
      rw [restoreName] at hout
      split at hout
      · cases hout
        exact Or.inl rfl
      · rename_i st' hst'
        split at hout
        · cases hout
          exact Or.inl rfl
        · rename_i hfree
          cases hout
          exact Or.inr ⟨st', hst', Option.not_isSome_iff_eq_none.1 hfree, rfl⟩

/-- A statement without a name has its name again, or its name is reported as taken. -/
theorem renamed_next (state : RestoreReport × Engine) (st : Statement) :
    Renamed t [st.id] state (restoreNextName t state st) ∧
      (state.2.store.Indexed → state.2.store.nameOf st.id = none →
        (restoreNextName t state st).2.store.nameOf st.id = st.identifier ∨
          (restoreNextName t state st).2.store.nameOf st.id = none ∧
            st.id ∈ (restoreNextName t state st).1.unnamed.map Prod.fst) := by
  rcases restoreNextName_cases (t := t) state st with ⟨hname, hrun⟩ | ⟨name, hname, hrun | hrun⟩
  · rw [hrun, hname]
    exact ⟨⟨.refl t _, id, rfl, fun _ h => h, rfl, rfl, fun _ => rfl, fun _ _ _ => rfl,
      fun _ => .refl _⟩, fun _ hnone => Or.inl hnone⟩
  · rw [hrun]
    refine ⟨⟨.refl t _, id, rfl, List.subset_append_left _ _, rfl, rfl, fun _ => rfl,
      fun _ _ _ => rfl, fun _ => .refl _⟩, fun _ hnone => Or.inr ⟨hnone, ?_⟩⟩
    exact List.mem_map.2 ⟨(st.id, name), List.mem_append_right _ (List.mem_singleton_self _), rfl⟩
  · obtain ⟨st', hst', hfree, hrun⟩ := hrun
    rw [hrun]
    have hput : (state.2.put t { st' with identifier := some name }).store =
        state.2.store.write { st' with identifier := some name } := store_put
    have hfields (hi : state.2.store.Indexed) :=
      @put_name_fields t _ _ st' (some name) hst' (hi.keyed st.id st' hst')
    refine ⟨⟨?_, fun hi => ?_, rfl, fun _ h => h, ?_, ?_, fun hi => (hfields hi).1, fun hi x hx =>
      (hfields hi).2.2.2 x fun heq => hx (List.mem_singleton.2 heq), fun hi => ?_⟩,
      fun hi _ => Or.inl ?_⟩
    · refine evolves_put fun hn => hn.write_named rfl fun y hy => ?_
      rw [hfree] at hy
      cases hy
    · rw [hput]
      exact hi.write
    · rw [hput]
      rfl
    · rw [hput]
      rfl
    · rw [hput]
      exact raises_rename hi hst'
    · have hid := hi.keyed st.id st' hst'
      rw [hput, nameOf_write, if_pos hid.symm, hname]

theorem renamed_all (l : List Statement) (state : RestoreReport × Engine) :
    Renamed t (l.map Statement.id) state (l.foldl (restoreNextName t) state) := by
  induction l generalizing state with
  | nil => exact .refl state
  | cons st rest ih => exact (renamed_next state st).1.trans (ih _)

/-- The restoration after rebuilding, once some entries have their names and authorities back. -/
structure Adorned (t : TransactionId) (state : RestoreReport × Engine) (done : List Deleted)
    (state' : RestoreReport × Engine) : Prop where
  evolves : Evolves t state.2 state'.2
  indexed : state'.2.store.Indexed
  restored : state'.1.restored = state.1.restored
  allocator : state'.2.store.allocator = state.2.store.allocator
  graph : state'.2.store.graph = state.2.store.graph
  names : ∀ x, (∀ d ∈ done, x ∉ d.ids) → state'.2.store.nameOf x = state.2.store.nameOf x
  authority : ∀ x a, state'.2.store.authority? x = some a →
    state.2.store.authority? x = some a ∨
      ∃ d ∈ done, d.statement.id = x ∧ d.authority = some a ∧ x ∈ state.1.restored ∧
        (state'.2.store.nameOf x = d.statement.identifier ∨
          state'.2.store.nameOf x = none ∧ x ∈ state'.1.unnamed.map Prod.fst)
  raises : state.2.store.Raises state'.2.store

theorem adorned_start (hi : state.2.store.Indexed) : Adorned t state [] state where
  evolves := .refl t _
  indexed := hi
  restored := rfl
  allocator := rfl
  graph := rfl
  names _ _ := rfl
  authority _ _ ha := Or.inl ha
  raises := .refl _

theorem Adorned.mono {state' : RestoreReport × Engine} {done' : List Deleted}
    (h : Adorned t state done state') (hsub : done ⊆ done') : Adorned t state done' state' :=
  { h with
    names := fun x hx => h.names x fun d hd => hx d (hsub hd)
    authority := fun x a ha => (h.authority x a ha).imp_right fun ⟨d, hd, hspec⟩ =>
      ⟨d, hsub hd, hspec⟩ }

/-- Names of statements that are not among those done come back. -/
theorem Adorned.renamed {state' state'' : RestoreReport × Engine} {ids : List StatementId}
    (h : Adorned t state done state') (hr : Renamed t ids state' state'') (hids : ids ⊆ d.ids)
    (hapart : ∀ d' ∈ done, d'.Apart d) : Adorned t state (done ++ [d]) state'' where
  evolves := h.evolves.trans hr.evolves
  indexed := hr.indexed h.indexed
  restored := hr.restored.trans h.restored
  allocator := hr.allocator.trans h.allocator
  graph := (hr.graph h.indexed).trans h.graph
  names x hx := by
    have hout : x ∉ ids := fun hmem =>
      hx d (List.mem_append_right _ (List.mem_singleton_self d)) (hids hmem)
    rw [hr.names h.indexed x hout]
    exact h.names x fun d' hd' => hx d' (List.mem_append_left _ hd')
  authority x a ha := by
    rw [authority?, hr.authorities] at ha
    rcases h.authority x a ha with ha | ⟨d', hd', hid, hkept, hin, hname⟩
    · exact Or.inl ha
    · have hout : x ∉ ids := by
        intro hmem
        exact hapart d' hd' (hid ▸ List.mem_cons_self) (hids hmem)
      refine Or.inr ⟨d', List.mem_append_left _ hd', hid, hkept, hin, ?_⟩
      rw [hr.names h.indexed x hout]
      exact hname.imp_right (And.imp_right fun hmem => List.map_subset _ hr.unnamed hmem)
  raises := h.raises.trans (hr.raises h.indexed)

/-- A statement that was rebuilt gets the authority that was kept of it. -/
theorem Adorned.authorize {state' : RestoreReport × Engine} {a : Authority}
    (h : Adorned t state done state') (hd : d ∈ done) (ha : d.authority = some a)
    (hid : a.statement = d.statement.id) (hin : d.statement.id ∈ state.1.restored)
    (hname : state'.2.store.nameOf d.statement.id = d.statement.identifier ∨
      state'.2.store.nameOf d.statement.id = none ∧
        d.statement.id ∈ state'.1.unnamed.map Prod.fst) :
    Adorned t state done (state'.1,
      (state'.2.setAuthority t a.statement (some a)).notify t (.authorityCreated a)) := by
  have hstore : ((state'.2.setAuthority t a.statement (some a)).notify t
      (.authorityCreated a)).store = state'.2.store.setAuthority d.statement.id (some a) := by
    rw [store_notify, store_setAuthority, hid]
  have hi : (state'.2.store.setAuthority d.statement.id (some a)).Indexed :=
    ⟨h.indexed.keyed, h.indexed.mirrors⟩
  refine ⟨h.evolves.trans (evolves_setAuthority.trans evolves_notify), ?_, h.restored, ?_, ?_,
    fun x hx => ?_, fun x b hb => ?_, ?_⟩
  · rw [hstore]
    exact hi
  · rw [hstore]
    exact h.allocator
  · rw [hstore]
    exact h.graph
  · rw [hstore]
    exact h.names x hx
  · rw [hstore, authority?_setAuthority] at hb
    rw [hstore]
    split at hb
    case isTrue hx =>
      cases hb
      cases hx
      exact Or.inr ⟨d, hd, rfl, ha, hin, hname⟩
    case isFalse => exact h.authority x b hb
  · rw [hstore]
    exact h.raises.trans (raises_of_sub h.indexed hi (.refl _) fun _ => .rfl)

theorem Adorned.next {state' : RestoreReport × Engine} (h : Adorned t state done state')
    (hlisted : ∀ st ∈ d.assumptions, st.id ∈ d.statement.assumptions) (hself : d.statement.Apart)
    (hauthority : ∀ a, d.authority = some a → a.statement = d.statement.id)
    (hapart : ∀ d' ∈ done, d'.Apart d) (hnames : ∀ x ∈ d.ids, state.2.store.nameOf x = none) :
    Adorned t state (done ++ [d]) (restoreTrappings t state' d) := by
  rw [restoreTrappings]
  split
  case isFalse => exact h.mono (List.subset_append_left _ _)
  case isTrue hin =>
    rw [h.restored] at hin
    obtain ⟨hfirst, hname⟩ := renamed_next (t := t) state' d.statement
    have hrest := renamed_all (t := t) d.assumptions (restoreNextName t state' d.statement)
    have hmine : d.assumptions.map Statement.id ⊆ d.statement.assumptions := by
      intro x hx
      obtain ⟨st, hst, rfl⟩ := List.mem_map.1 hx
      exact hlisted st hst
    have hnone : state'.2.store.nameOf d.statement.id = none := by
      rw [h.names d.statement.id fun d' hd' hmem => hapart d' hd' hmem List.mem_cons_self]
      exact hnames _ List.mem_cons_self
    -- the names of the assumptions come after that of the statement, which they leave alone
    have hname := hname h.indexed hnone
    rw [← hrest.names (hfirst.indexed h.indexed) _ fun hmem => hself (hmine hmem)] at hname
    replace hname :=
      hname.imp_right (And.imp_right fun hmem => List.map_subset _ hrest.unnamed hmem)
    have hbase := h.renamed (d := d) (hfirst.trans hrest) (List.cons_subset_cons _ hmine) hapart
    cases ha : d.authority with
    | none => exact hbase
    | some a =>
      exact hbase.authorize (List.mem_append_right _ (List.mem_singleton_self d)) ha
        (hauthority a ha) hin hname

theorem Adorned.restoreAll {state' : RestoreReport × Engine} (h : Adorned t state done state')
    {A : Allocator} {G : Graph} (hd : ∀ d ∈ l, d.Dormant A G)
    (hapart : (done ++ l).Pairwise Deleted.Apart)
    (hnames : ∀ d ∈ l, ∀ x ∈ d.ids, state.2.store.nameOf x = none) :
    Adorned t state (done ++ l) (l.foldl (restoreTrappings t) state') := by
  induction l generalizing done state' with
  | nil =>
    rw [List.append_nil]
    exact h
  | cons d rest ih =>
    obtain ⟨hd, hrest⟩ := List.forall_mem_cons.1 hd
    obtain ⟨hname, hnames⟩ := List.forall_mem_cons.1 hnames
    have hothers (d' : Deleted) (hd' : d' ∈ done) : d'.Apart d :=
      (List.pairwise_append.1 hapart).2.2 d' hd' d List.mem_cons_self
    have hnext := h.next hd.listed hd.apart hd.authority hothers hname
    rw [List.append_cons] at hapart ⊢
    exact ih hnext hrest hapart hnames

/-- What undeleting a batch comes to. -/
structure Revives (t : TransactionId) (batch : DeletionBatch) (e : Engine) (report : RestoreReport)
    (e' : Engine) : Prop where
  evolves : Evolves t e e'
  allocator : e'.store.allocator = e.store.allocator
  grown : e.store.graph.Sub e'.store.graph
  new : ∀ x c, e'.store.graph x = some c → e.store.graph x = some c ∨ ∃ d ∈ batch, x ∈ d.ids
  paired : e'.store.graph.Paired
  names : ∀ x, (∀ d ∈ batch, x ∉ d.ids) → e'.store.nameOf x = e.store.nameOf x
  authority : ∀ x a, e'.store.authority? x = some a → e.store.authority? x = some a ∨
    ∃ d ∈ batch, d.statement.id = x ∧ d.authority = some a ∧ (∃ c, e'.store.graph x = some c) ∧
      (e'.store.nameOf x = d.statement.identifier ∨
        e'.store.nameOf x = none ∧ x ∈ report.unnamed.map Prod.fst)
  owned : e.store.graph.Owned → e'.store.graph.Owned
  raises : e.store.Raises e'.store

theorem revives_batch {batch : DeletionBatch} {rest : List DeletionBatch} (ho : e.Orderly)
    (hbatches : e.undo.batches = batch :: rest)
    (hp : e.store.graph.Paired) (hnext : e.store.allocator.next ≠ 0)
    (hd : ∀ d ∈ batch, d.Dormant e.store.allocator e.store.graph)
    (hapart : batch.Pairwise Deleted.Apart) :
    let S : Engine := { e with undo := { e.undo with batches := rest } }
    let rebuilt := batch.reverse.foldl (rebuildNext t) ({}, S)
    let out := batch.reverse.foldl (restoreTrappings t) rebuilt
    Revives t batch S out.1 out.2 := by
  intro S rebuilt out
  have hS : S.Orderly := ho.fewer (by rw [hbatches]; exact List.sublist_cons_self _ _)
  have hback (d : Deleted) (hmem : d ∈ batch.reverse) := hd d (List.mem_reverse.1 hmem)
  have hapart' : batch.reverse.Pairwise Deleted.Apart :=
    List.pairwise_reverse.2 (hapart.imp fun hdisjoint => hdisjoint.symm)
  have hstart : Revived t S [] (({}, S) : RestoreReport × Engine).2 := revived_start hS hp
  obtain ⟨hrevived, hlive⟩ := hstart.rebuildAll hnext hback hapart' fun x hx => by cases hx
  have hadorned := (adorned_start (t := t) hrevived.orderly.filed.indexed).restoreAll hback hapart'
    fun d hmem x hx => (hrevived.names x).trans (nameOf_of_dead ((hback d hmem).dead x hx))
  refine ⟨hrevived.evolves.trans hadorned.evolves,
    hadorned.allocator.trans hrevived.allocator, ?_, fun x c hx => ?_, ?_, fun x hx => ?_,
    fun x a ha => ?_, ?_, hrevived.raises.trans hadorned.raises⟩
  · rw [hadorned.graph]
    exact hrevived.grown
  · rw [hadorned.graph] at hx
    exact (hrevived.new x c hx).imp_right fun ⟨d, hmem, hx⟩ => ⟨d, List.mem_reverse.1 hmem, hx⟩
  · rw [hadorned.graph]
    exact hrevived.paired
  · refine (hadorned.names x fun d hmem => hx d (List.mem_reverse.1 hmem)).trans (hrevived.names x)
  · rcases hadorned.authority x a ha with ha | ⟨d, hmem, hid, hkept, hin, hname⟩
    · rw [authority?, hrevived.authorities] at ha
      exact Or.inl ha
    · refine Or.inr ⟨d, List.mem_reverse.1 hmem, hid, hkept, ?_, hname⟩
      rw [hadorned.graph]
      exact hlive x hin
  · rw [hadorned.graph]
    exact hrevived.owned

end Engine

end StatementGraph
