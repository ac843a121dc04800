import StatementGraph.Proofs.Restorable
import StatementGraph.Proofs.Restoring

namespace StatementGraph

theorem Graph.Lawful.carries {H : Graph} {x : StatementId} {c : Content}
    (h : H.Lawful .exact) (hx : H x = some c) : H.Carries c.term := by
  intro y type hy
  obtain ⟨cy, hcy, rfl⟩ := (h x c hx).term.1 y type hy
  exact ⟨cy, hcy, Term.beq_refl _⟩

namespace Engine

open Store

variable {t : TransactionId} {H : Graph} {e e' : Engine} {batches : List DeletionBatch}
  {l : DeletionBatch} {d : Deleted} {x y : StatementId}

theorem rebuildDeleted_spec {r : Except Failure Unit} (hs : Sound .exact t H e)
    (hc : e.store.allocator.next ≠ 0)
    (hburied : H.Buries e.store.graph ((d :: l) :: batches))
    (hplain : d.statement.isAssumption = false)
    (hrun : (rebuildDeleted t d.statement).perform e = (r, e')) :
    Restored .exact t H d.ids e e' ∧ H.Buries e'.store.graph (l :: batches) ∧
      (∀ y, e'.store.nameOf y = e.store.nameOf y) ∧
      (r = .ok () ↔ ∀ y, d.statement.Needs y → e.store.graph.Live y) ∧
      (r = .ok () → ∀ y, e'.store.graph.Live y ↔ e.store.graph.Live y ∨ y ∈ d.ids) := by
  have hmem : d ∈ ((d :: l) :: batches).flatten := List.mem_cons_self
  have hH := hburied.content d hmem
  obtain ⟨hrestored, hnames, hlive, hcomplete, -⟩ := rebuilds_rebuildDeleted (t := t) hs hc hH
    (fun y hy => hburied.dead y (List.mem_flatMap.2 ⟨d, hmem, hy⟩)) r e' hrun
  have hclosed := hrestored.sound.maintained.closed
  have hback (hok : r = .ok ()) (y : StatementId) :
      e'.store.graph.Live y ↔ e.store.graph.Live y ∨ y ∈ d.ids := by
    obtain ⟨c, hc⟩ := hlive hok
    cases (hrestored.sound.maintained.sub _ c hc).symm.trans hH
    constructor
    · rintro ⟨c, hy⟩
      exact (hrestored.back y c hy).imp_left fun hy => ⟨c, hy⟩
    · rintro (⟨c, hy⟩ | hy)
      · exact ⟨c, hrestored.kept y c hy⟩
      · rcases List.mem_cons.1 hy with rfl | hy
        · exact ⟨_, hc⟩
        · obtain ⟨data, hk, hy⟩ := Statement.mem_assumptions.1 hy
          exact hclosed.assumption _ _ data y hc hk hy
  refine ⟨hrestored, hburied.pop hrestored.back, hnames, ⟨fun hok y hy => ?_, fun hready => ?_⟩,
    hback⟩
  · obtain ⟨c, hc⟩ := hlive hok
    cases (hrestored.sound.maintained.sub _ c hc).symm.trans hH
    have hlive : e'.store.graph.Live y := by
      rcases hy with ho | hd
      · exact hclosed.owner _ _ y hc ho
      · exact hclosed.dependency _ _ y hc hd
    exact ((hback hok y).1 hlive).resolve_right (hs.lawful.not_mem_ids hH hy)
  · apply hcomplete
    refine ⟨⟨fun o ho => hready o (Or.inl ho), fun d hd => hready d (Or.inr hd)⟩, ?_, hplain⟩
    exact hs.lawful.carries hH

theorem failed_rebuildAll (l : DeletionBatch) (report : RestoreReport)
    (h : (l.foldl (rebuildNext t) (report, e)).1.failed = []) : report.failed = [] := by
  induction l generalizing report e with
  | nil => exact h
  | cons d rest ih =>
    rw [List.foldl_cons, rebuildNext] at h
    cases hrun : (rebuildDeleted t d.statement).perform e with
    | mk r e' =>
      rw [hrun] at h
      cases r with
      | ok _ => exact ih { report with restored := report.restored ++ [d.statement.id] } h
      | error f => exact (List.append_eq_nil_iff.1 (ih _ h)).1

/-- The statements of a list come back exactly if they can. -/
theorem rebuildAll_spec (l : DeletionBatch) (report : RestoreReport) (hs : Sound .exact t H e)
    (hc : e.store.allocator.next ≠ 0)
    (hburied : H.Buries e.store.graph (l :: batches))
    (hplain : ∀ d ∈ l, d.statement.isAssumption = false) :
    ((l.foldl (rebuildNext t) (report, e)).1.failed = [] →
      Restorable e.store.graph.Live l) ∧
    (Restorable e.store.graph.Live l → l.foldl (rebuildNext t) (report, e) =
        ({ report with restored := report.restored ++ l.map (·.statement.id) },
          (l.foldl (rebuildNext t) (report, e)).2) ∧
      (∀ y, (l.foldl (rebuildNext t) (report, e)).2.store.nameOf y = e.store.nameOf y) ∧
      ∀ y, (l.foldl (rebuildNext t) (report, e)).2.store.graph.Live y ↔
        e.store.graph.Live y ∨ y ∈ l.flatMap Deleted.ids) := by
  induction l generalizing report e with
  | nil => simp [Restorable]
  | cons d rest ih =>
    rw [List.foldl_cons, rebuildNext]
    cases hrun : (rebuildDeleted t d.statement).perform e with
    | mk r e' =>
      obtain ⟨hone, hleft, hnames, hok, hback⟩ :=
        rebuildDeleted_spec hs hc hburied (hplain d List.mem_cons_self) hrun
      have ih (report : RestoreReport) := ih report hone.sound hone.counter hleft fun d' hd =>
        hplain d' (List.mem_cons_of_mem _ hd)
      cases r with
      | error f =>
        have hnot : ¬Restorable e.store.graph.Live (d :: rest) :=
          fun h => by cases hok.2 h.1
        refine ⟨fun h => ?_, fun h => absurd h hnot⟩
        have hfailed := failed_rebuildAll rest _ h
        exact absurd hfailed (List.append_ne_nil_of_right_ne_nil _ (List.cons_ne_nil _ _))
      | ok _ =>
        have hlive := restorable_congr (l := rest) (hback rfl)
        obtain ⟨hfailed, hcomplete⟩ :=
          ih { report with restored := report.restored ++ [d.statement.id] }
        refine ⟨fun h => ⟨hok.1 rfl, hlive.1 (hfailed h)⟩, fun h => ?_⟩
        obtain ⟨hreport, hnames', hback'⟩ := hcomplete (hlive.2 h.2)
        refine ⟨?_, fun y => (hnames' y).trans (hnames y), fun y => ?_⟩
        · simpa using hreport
        · rw [hback', hback rfl, List.flatMap_cons, List.mem_append, or_assoc]

end Engine

namespace Store

variable {s prior : Store} {x : StatementId} {o : Option StatementId} {name : Identifier}

theorem scopedName_eq_some : s.scopedName x = some (o, name) ↔
    (∃ c, s.graph x = some c ∧ c.owner = o) ∧ s.nameOf x = some name := by
  rw [scopedName, graph, nameOf]
  cases s.get? x with
  | none => simp
  | some st =>
    simp only [Option.bind_some, Statement.scopedName, Option.map_some, Option.some.injEq,
      Option.map_eq_some_iff, Prod.mk.injEq, exists_eq_left']
    constructor
    · rintro ⟨name', hname, ho, rfl⟩
      exact ⟨ho, hname⟩
    · rintro ⟨ho, hname⟩
      exact ⟨name, hname, ho, rfl⟩

/-- The statements of a store are those of another one, and so are the names it has. -/
structure Echoes (s prior : Store) : Prop where
  graph : s.graph = prior.graph
  names : ∀ y, s.nameOf y = none ∨ s.nameOf y = prior.nameOf y

theorem Echoes.free (h : s.Echoes prior) (hn : s.Named) (hp : prior.Named)
    (hx : prior.scopedName x = some (o, name)) (hnone : s.nameOf x = none) :
    s.lookupName o name = none := by
  apply Option.eq_none_iff_forall_ne_some.2
  intro y hy
  obtain ⟨howner, hname⟩ := scopedName_eq_some.1 (hn.lookupName.1 hy)
  have hprior : prior.scopedName y = some (o, name) := by
    refine scopedName_eq_some.2 ⟨h.graph ▸ howner, ?_⟩
    rcases h.names y with hy' | hy'
    · rw [hname] at hy'
      cases hy'
    · rw [← hy', hname]
  cases hp.unique y x (o, name) hprior hx
  cases hnone.symm.trans hname

end Store

namespace Engine

open Store

variable {t : TransactionId} {e : Engine} {prior : Store} {d : Deleted} {st : Statement}

/-- A statement that has lost its name gets it back. -/
theorem restoreName_spec {name : Identifier} (hn : e.store.Named) (hp : prior.Named)
    (h : e.store.Echoes prior) (hst : prior.get? st.id = some st)
    (hname : st.identifier = some name) (hnone : e.store.nameOf st.id = none) :
    ∃ e', e.restoreName t st.id name = (true, e') ∧ e'.store.Named ∧ e'.store.Echoes prior ∧
      ∀ y, e'.store.nameOf y = if y = st.id then prior.nameOf y else e.store.nameOf y := by
  have hgraph := graph_of_get? hst
  rw [← h.graph] at hgraph
  obtain ⟨st', hst', hcontent⟩ := graph_eq_some.1 hgraph
  have hid : st'.id = st.id := hn.on.keyed st.id st' hst'
  have hprior : prior.nameOf st.id = some name := by rw [nameOf, hst, Option.bind_some, hname]
  have hfree : e.store.lookupName st'.owner name = none := by
    refine h.free hn hp (scopedName_eq_some.2 ⟨⟨_, graph_of_get? hst, ?_⟩, hprior⟩) hnone
    exact (congrArg Content.owner hcontent).symm
  have hnames (y : StatementId) :
      (e.store.write { st' with identifier := some name }).nameOf y =
        if y = st.id then prior.nameOf y else e.store.nameOf y := by
    rw [nameOf_write, hid]
    split
    case isTrue hy => rw [hy, hprior]
    case isFalse => rfl
  refine ⟨e.put t { st' with identifier := some name }, ?_, ?_, ⟨?_, fun y => ?_⟩, fun y => ?_⟩ <;>
    try rw [store_put]
  · rw [restoreName, hst']
    dsimp only
    rw [hfree, Option.isSome_none, if_neg Bool.false_ne_true]
  · apply hn.write_named rfl
    intro y hy
    cases hfree.symm.trans hy
  · rw [graph_write_name hst' hid, h.graph]
  · rw [hnames]
    split
    case isTrue => exact Or.inr rfl
    case isFalse => exact h.names y
  · exact hnames y

/-- Statements that have lost their names get them back, one after the other. -/
theorem restoreNames_spec (l : List Statement) (report : RestoreReport) (hn : e.store.Named)
    (hp : prior.Named) (h : e.store.Echoes prior) (hl : ∀ st ∈ l, prior.get? st.id = some st)
    (hnodup : (l.map Statement.id).Nodup) (hnone : ∀ st ∈ l, e.store.nameOf st.id = none) :
    ∃ e', l.foldl (restoreNextName t) (report, e) = (report, e') ∧ e'.store.Named ∧
      e'.store.Echoes prior ∧ ∀ y, e'.store.nameOf y =
        if y ∈ l.map Statement.id then prior.nameOf y else e.store.nameOf y := by
  induction l generalizing e with
  | nil => exact ⟨e, rfl, hn, h, fun y => rfl⟩
  | cons st rest ih =>
    obtain ⟨hst, hrest⟩ := List.forall_mem_cons.1 hl
    obtain ⟨hnone', hothers⟩ := List.forall_mem_cons.1 hnone
    obtain ⟨hnew, hnodup⟩ := List.nodup_cons.1 hnodup
    -- whether it had a name or not, the statement has its old name afterwards
    obtain ⟨e₁, hstep, hn₁, h₁, hnames₁⟩ : ∃ e₁, restoreNextName t (report, e) st = (report, e₁) ∧
        e₁.store.Named ∧ e₁.store.Echoes prior ∧ ∀ y, e₁.store.nameOf y =
          if y = st.id then prior.nameOf y else e.store.nameOf y := by
      rw [restoreNextName]
      cases hname : st.identifier with
      | none =>
        refine ⟨e, rfl, hn, h, fun y => ?_⟩
        split
        case isTrue hy => rw [hy, hnone', nameOf, hst, Option.bind_some, hname]
        case isFalse => rfl
      | some name =>
        obtain ⟨e₁, hrestore, hspec⟩ := restoreName_spec (t := t) hn hp h hst hname hnone'
        refine ⟨e₁, ?_, hspec⟩
        dsimp only
        rw [hrestore]
        rfl
    obtain ⟨e', hfold, hn', h', hnames'⟩ := ih hn₁ h₁ hrest hnodup fun st' hst' => by
      rw [hnames₁, if_neg]
      · exact hothers st' hst'
      · intro heq
        exact hnew (heq ▸ List.mem_map_of_mem hst')
    refine ⟨e', ?_, hn', h', fun y => ?_⟩
    · rw [List.foldl_cons, hstep, hfold]
    · rw [hnames', hnames₁, List.map_cons]
      by_cases hy : y = st.id <;> by_cases hmem : y ∈ rest.map Statement.id <;> simp [hy, hmem]

theorem map_id_assumptions {H : Graph} (hm : prior.Maintained H) (hd : d.Records prior) :
    (d.statement :: d.assumptions).map Statement.id = d.ids ∧
      ∀ st ∈ d.statement :: d.assumptions, prior.get? st.id = some st := by
  have hlive (a : StatementId) (ha : a ∈ d.statement.assumptions) :
      ∃ sa, prior.get? a = some sa ∧ sa.id = a := by
    obtain ⟨data, hk, ha⟩ := Statement.mem_assumptions.1 ha
    obtain ⟨c, hc⟩ := hm.closed.assumption _ _ data a (graph_of_get? hd.statement) hk ha
    obtain ⟨sa, hsa, -⟩ := graph_eq_some.1 hc
    exact ⟨sa, hsa, hm.indexed.keyed a sa hsa⟩
  constructor
  · rw [List.map_cons, Deleted.ids, hd.assumptions, List.map_filterMap]
    have hsame : d.statement.assumptions.filterMap (fun a => (prior.get? a).map Statement.id) =
        d.statement.assumptions.filterMap some := by
      apply List.filterMap_congr
      intro a ha
      obtain ⟨sa, hsa, hid⟩ := hlive a ha
      rw [hsa, Option.map_some, hid]
    rw [hsame, List.filterMap_some]
  · intro st hst
    rcases List.mem_cons.1 hst with rfl | hst
    · exact hd.statement
    · rw [hd.assumptions, List.mem_filterMap] at hst
      obtain ⟨a, -, ha⟩ := hst
      rw [hm.indexed.keyed a st ha]
      exact ha

/-- The statements of a batch that were rebuilt take their names again. -/
theorem restoreAll_spec {H : Graph} (l : DeletionBatch) (report : RestoreReport)
    (hm : prior.Maintained H) (hn : e.store.Named) (hp : prior.Named)
    (h : e.store.Echoes prior) (hl : ∀ d ∈ l, d.Records prior)
    (hrestored : ∀ d ∈ l, d.statement.id ∈ report.restored)
    (hnodup : (l.flatMap Deleted.ids).Nodup)
    (hnone : ∀ y ∈ l.flatMap Deleted.ids, e.store.nameOf y = none) :
    ∃ e', l.foldl (restoreTrappings t) (report, e) = (report, e') ∧ e'.store.Echoes prior ∧
      ∀ y, e'.store.nameOf y =
        if y ∈ l.flatMap Deleted.ids then prior.nameOf y else e.store.nameOf y := by
  induction l generalizing e with
  | nil => exact ⟨e, rfl, h, fun y => rfl⟩
  | cons d rest ih =>
    obtain ⟨hd, hrest⟩ := List.forall_mem_cons.1 hl
    obtain ⟨hin, hothers⟩ := List.forall_mem_cons.1 hrestored
    rw [List.flatMap_cons, List.nodup_append] at hnodup
    obtain ⟨hids, hnodup, hdisjoint⟩ := hnodup
    obtain ⟨hmap, hrecords⟩ := map_id_assumptions hm hd
    obtain ⟨e₁, hfold, hn₁, h₁, hnames₁⟩ := restoreNames_spec (t := t)
      (d.statement :: d.assumptions) report hn hp h hrecords (hmap ▸ hids) fun st hst => by
        apply hnone
        rw [List.flatMap_cons, List.mem_append, ← hmap]
        exact Or.inl (List.mem_map_of_mem hst)
    rw [hmap] at hnames₁
    -- giving the authority back touches neither records nor names
    obtain ⟨e₂, hstep, hget, hn₂⟩ : ∃ e₂, restoreTrappings t (report, e) d = (report, e₂) ∧
        (∀ y, e₂.store.get? y = e₁.store.get? y) ∧ e₂.store.Named := by
      rw [restoreTrappings, if_pos hin, hfold]
      cases d.authority with
      | none => exact ⟨e₁, rfl, fun _ => rfl, hn₁⟩
      | some a =>
        refine ⟨_, rfl, fun y => ?_, ?_⟩
        · rw [store_notify, store_setAuthority]
          rfl
        · exact (evolves_setAuthority.trans evolves_notify).named hn₁
    have hnames₂ (y : StatementId) : e₂.store.nameOf y = e₁.store.nameOf y := by
      rw [nameOf, nameOf, hget]
    have h₂ : e₂.store.Echoes prior := by
      refine ⟨?_, fun y => hnames₂ y ▸ h₁.names y⟩
      rw [← h₁.graph]
      funext y
      rw [graph, graph, hget]
    obtain ⟨e', hfold', h', hnames'⟩ := ih hn₂ h₂ hrest hothers hnodup fun y hy => by
      rw [hnames₂, hnames₁, if_neg fun hmem => hdisjoint y hmem y hy rfl]
      apply hnone
      rw [List.flatMap_cons]
      exact List.mem_append_right _ hy
    refine ⟨e', ?_, h', fun y => ?_⟩
    · rw [List.foldl_cons, hstep, hfold']
    · rw [hnames', hnames₂, hnames₁, List.flatMap_cons]
      by_cases hy : y ∈ d.ids <;> by_cases hmem : y ∈ rest.flatMap Deleted.ids <;> simp [hy, hmem]

end Engine

namespace Store

variable {s prior : Store} {H : Graph} {batch : DeletionBatch} {x : StatementId}

/-- A store is another one without the statements of a batch. -/
structure Lacks (s prior : Store) (batch : DeletionBatch) : Prop where
  left : s.graph.Sub prior.graph
  names : ∀ x, s.graph.Live x → s.nameOf x = prior.nameOf x
  records : ∀ d ∈ batch, d.Records prior
  swept : ∀ x, prior.graph.Live x ↔ s.graph.Live x ∨ x ∈ batch.flatMap Deleted.ids

/-- Maintained stores with the same statements and the same names have the same records. -/
theorem get?_congr {H' : Graph} (hm : s.Maintained H) (hm' : prior.Maintained H')
    (hgraph : s.graph = prior.graph) (hnames : ∀ x, s.nameOf x = prior.nameOf x)
    (x : StatementId) : s.get? x = prior.get? x := by
  cases hst : s.get? x with
  | none =>
    have hnone : prior.graph x = none := by
      rw [← hgraph, graph, hst]
      rfl
    exact (Option.map_eq_none_iff.1 hnone).symm
  | some st =>
    have hx := graph_of_get? hst
    rw [hgraph] at hx
    obtain ⟨st', hst', hcontent⟩ := graph_eq_some.1 hx
    rw [hst']
    have hid := (hm.indexed.keyed x st hst).trans (hm'.indexed.keyed x st' hst').symm
    have hname := hnames x
    rw [nameOf, nameOf, hst, hst'] at hname
    have hproved : st.proved = st'.proved := by
      have hiff : st.proved = true ↔ st'.proved = true := by
        rw [← proved_of_get? hst, ← proved_of_get? hst', hm.proved_iff, hm'.proved_iff, hgraph]
      exact Bool.eq_iff_iff.2 hiff
    obtain ⟨id, owner, term, proved, dependencies, identifier, kind⟩ := st
    obtain ⟨id', owner', term', proved', dependencies', identifier', kind'⟩ := st'
    cases hid
    cases hproved
    cases hname
    cases hcontent
    rfl

end Store

theorem Graph.eq_of_live {G K H : Graph} (hG : G.Sub H) (hK : K.Sub H)
    (h : ∀ x, G.Live x ↔ K.Live x) : G = K := by
  funext x
  cases hx : G x with
  | some c =>
    obtain ⟨c', hc'⟩ := (h x).1 ⟨c, hx⟩
    rw [hc', ← hK x c' hc', hG x c hx]
  | none =>
    symm
    apply Option.eq_none_iff_forall_ne_some.2
    intro c hc
    obtain ⟨c', hc'⟩ := (h x).2 ⟨c, hc⟩
    cases hx.symm.trans hc'

namespace Engine

open Store

variable {t : TransactionId} {H : Graph} {e : Engine} {prior : Store} {batch : DeletionBatch}
  {rest batches : List DeletionBatch}

theorem failed_restoreNames (l : List Statement) (state : RestoreReport × Engine) :
    (l.foldl (restoreNextName t) state).1.failed = state.1.failed := by
  induction l generalizing state with
  | nil => rfl
  | cons st rest ih =>
    rw [List.foldl_cons, ih, restoreNextName]
    split
    case h_1 => rfl
    case h_2 name _ =>
      dsimp only
      split <;> rfl

theorem failed_restoreAll (l : DeletionBatch) (state : RestoreReport × Engine) :
    (l.foldl (restoreTrappings t) state).1.failed = state.1.failed := by
  induction l generalizing state with
  | nil => rfl
  | cons d rest ih =>
    rw [List.foldl_cons, ih, restoreTrappings]
    split
    case isFalse => rfl
    case isTrue =>
      rw [← failed_restoreNames (t := t) (d.statement :: d.assumptions) state]
      cases d.authority <;> rfl

theorem mem_ids_reverse {y : StatementId} :
    y ∈ batch.reverse.flatMap Deleted.ids ↔ y ∈ batch.flatMap Deleted.ids := by
  simp only [List.mem_flatMap, List.mem_reverse]

theorem echoes_rebuilt {e' : Engine} (hs : Sound .exact t H e') (hm : prior.Maintained H)
    (hlacks : e.store.Lacks prior batch)
    (hnames : ∀ y, e'.store.nameOf y = e.store.nameOf y)
    (hlive : ∀ y, e'.store.graph.Live y ↔
      e.store.graph.Live y ∨ y ∈ batch.reverse.flatMap Deleted.ids) :
    e'.store.Echoes prior := by
  constructor
  · apply Graph.eq_of_live hs.maintained.sub hm.sub
    intro y
    rw [hlive, hlacks.swept, mem_ids_reverse]
  · intro y
    rw [hnames]
    cases hy : e.store.graph y with
    | none => exact Or.inl (nameOf_of_dead hy)
    | some c => exact Or.inr (hlacks.names y ⟨c, hy⟩)

/-- A batch that can be restored comes back with all its names. -/
theorem restoreBatch_spec (hs : Sound .exact t H e) (hc : e.store.allocator.next ≠ 0)
    (hn : e.store.Named) (hburied : H.Buries e.store.graph (batch.reverse :: batches))
    (hm : prior.Maintained H) (hp : prior.Named) (hlacks : e.store.Lacks prior batch)
    (h : Restorable e.store.graph.Live batch.reverse) :
    ∃ report e', batch.reverse.foldl (restoreTrappings t)
        (batch.reverse.foldl (rebuildNext t) ({}, e)) = (report, e') ∧
      report.failed = [] ∧ report.unnamed = [] ∧ e'.store.graph = prior.graph ∧
      ∀ y, e'.store.nameOf y = prior.nameOf y := by
  have hrecords (d : Deleted) (hd : d ∈ batch.reverse) : d.Records prior :=
    hlacks.records d (List.mem_reverse.1 hd)
  have hdistinct := hburied.distinct
  rw [List.flatten_cons, List.flatMap_append, List.nodup_append] at hdistinct
  have hnone (y : StatementId) (hy : y ∈ batch.reverse.flatMap Deleted.ids) :
      e.store.nameOf y = none := by
    apply nameOf_of_dead
    apply hburied.dead
    rw [List.flatten_cons, List.flatMap_append]
    exact List.mem_append_left _ hy
  obtain ⟨hrebuilt, -⟩ := restored_rebuildAll (t := t) batch.reverse {} hs hc hburied
    (fun x hx => by cases hx) rfl
  obtain ⟨hreport, hnames, hlive⟩ := (rebuildAll_spec (t := t) batch.reverse {} hs hc hburied
    fun d hd => (hrecords d hd).plain).2 h
  rw [hreport]
  generalize (batch.reverse.foldl (rebuildNext t) ({}, e)).2 = e₁ at hrebuilt hnames hlive
  obtain ⟨e', hfold, hechoes, hnames'⟩ := restoreAll_spec (t := t) batch.reverse
    { restored := [] ++ batch.reverse.map (·.statement.id) } hm (hrebuilt.evolves.named hn) hp
    (echoes_rebuilt hrebuilt.sound hm hlacks hnames hlive) hrecords
    (fun d hd => List.mem_map_of_mem hd) hdistinct.1 fun y hy => (hnames y).trans (hnone y hy)
  refine ⟨_, e', hfold, rfl, rfl, hechoes.graph, fun y => ?_⟩
  rw [hnames', hnames]
  split
  case isTrue => rfl
  case isFalse hout =>
    -- what was not in the batch kept its name, or was not there before either
    cases hy : e.store.graph y with
    | some c => exact hlacks.names y ⟨c, hy⟩
    | none =>
      rw [nameOf_of_dead hy, nameOf_of_dead]
      apply Option.eq_none_iff_forall_ne_some.2
      intro c hc
      rcases (hlacks.swept y).1 ⟨c, hc⟩ with ⟨c', hc'⟩ | hmem
      · cases hy.symm.trans hc'
      · exact hout (mem_ids_reverse.2 hmem)

theorem maintained_undelete {e' : Engine} {r : Except Failure RestoreReport}
    (hs : Sound .exact t H e) (hc : e.store.allocator.next ≠ 0)
    (hburied : H.Buries e.store.graph (e.undo.batches ++ batches))
    (hrun : (undelete t).perform e = (r, e')) : e'.store.Maintained H := by
  rcases undelete_cases hs hc hburied hrun with
    ⟨-, -, rfl⟩ | ⟨report, b, undo, e₁, -, -, hs₁, -, -, -, rfl⟩
  · exact hs.maintained
  · rw [store_onTransaction]
    exact hs₁.maintained

theorem undelete_spec (hs : Sound .exact t H e) (hc : e.store.allocator.next ≠ 0)
    (hn : e.store.Named) (hburied : H.Buries e.store.graph (e.undo.batches ++ batches))
    (hbatches : e.undo.batches = batch :: rest) (hm : prior.Maintained H) (hp : prior.Named)
    (hlacks : e.store.Lacks prior batch) :
    ∃ report e', (undelete t).perform e = (.ok report, e') ∧
      (report.failed = [] ↔ Restorable e.store.graph.Live batch.reverse) ∧
      (report.failed = [] → report.unnamed = [] ∧ ∀ x, e'.store.get? x = prior.get? x) := by
  have hs' : Sound .exact t H { e with undo := { e.undo with batches := rest } } :=
    ⟨hs.lawful, hs.maintained, hs.counter, hs.isOpen⟩
  have hkept : H.Buries e.store.graph (batch.reverse :: (rest ++ batches)) := by
    refine hburied.subperm (List.Perm.subperm ?_)
    rw [hbatches, List.cons_append, List.flatten_cons, List.flatten_cons]
    exact batch.reverse_perm.append_right _
  obtain ⟨-, -, hcalm⟩ := restored_rebuildAll (t := t) batch.reverse {} hs' hc hkept
    (fun x hx => by cases hx) rfl
  have hrun := perform_undelete hs.isOpen hbatches hcalm
  have hafter := maintained_undelete hs hc hburied hrun
  have hfailed := (rebuildAll_spec (t := t) batch.reverse {} hs' hc hkept fun d hd =>
    (hlacks.records d (List.mem_reverse.1 hd)).plain).1
  have hback := restoreBatch_spec (t := t) hs' hc hn hkept hm hp hlacks
  rw [← failed_restoreAll (t := t) batch.reverse] at hfailed
  refine ⟨_, _, hrun, ⟨hfailed, fun h => ?_⟩, fun h => ?_⟩
  · obtain ⟨report, e', hfold, hnone, -⟩ := hback h
    dsimp only
    rw [hfold]
    exact hnone
  · obtain ⟨report, e', hfold, -, hunnamed, hgraph, hnames⟩ := hback (hfailed h)
    dsimp only at hafter ⊢
    rw [hfold] at hafter ⊢
    refine ⟨hunnamed, fun x => ?_⟩
    rw [store_onTransaction] at hafter ⊢
    exact get?_congr hafter hm hgraph hnames x

end Engine

end StatementGraph
