import StatementGraph.Mutation.Remove
import StatementGraph.Proofs.Buried
import StatementGraph.Proofs.Growth

namespace StatementGraph

namespace Engine

open Store Removal

variable {t : TransactionId} {e e' e'' : Engine} {x y : StatementId} {ids ids' : List StatementId}
  {st : Statement}

/-- Records are taken out, with their authorities. -/
structure Erased (t : TransactionId) (ids : List StatementId) (e e' : Engine) : Prop where
  indexed : e.store.Indexed → e'.store.Indexed
  allocator : e'.store.allocator = e.store.allocator
  evolves : Evolves t e e'
  records : ∀ y, e'.store.get? y = if y ∈ ids then none else e.store.get? y
  authority : ∀ y a, e'.store.authority? y = some a →
    e.store.authority? y = some a ∧ (y ∈ ids → e.store.get? y = none)
  others : ∀ y, y ∉ ids → e'.store.authority? y = e.store.authority? y

theorem Erased.refl (t : TransactionId) (e : Engine) : Erased t [] e e :=
  ⟨id, rfl, .refl t e, fun _ => rfl, fun _ _ ha => ⟨ha, fun hy => (by cases hy)⟩, fun _ _ => rfl⟩

theorem Erased.trans (h : Erased t ids e e') (h' : Erased t ids' e' e'') :
    Erased t (ids ++ ids') e e'' where
  indexed hi := h'.indexed (h.indexed hi)
  allocator := h'.allocator.trans h.allocator
  evolves := h.evolves.trans h'.evolves
  records y := by
    rw [h'.records, h.records]
    by_cases hy : y ∈ ids <;> by_cases hy' : y ∈ ids' <;> simp [hy, hy']
  authority y a ha := by
    obtain ⟨ha', hgone'⟩ := h'.authority y a ha
    obtain ⟨ha, hgone⟩ := h.authority y a ha'
    refine ⟨ha, fun hy => ?_⟩
    by_cases hmem : y ∈ ids
    · exact hgone hmem
    · have hnone := hgone' ((List.mem_append.1 hy).resolve_left hmem)
      rwa [h.records, if_neg hmem] at hnone
  others y hy := by
    rw [h'.others y fun hmem => hy (List.mem_append_right _ hmem),
      h.others y fun hmem => hy (List.mem_append_left _ hmem)]

theorem Erased.kept (h : Erased t ids e e') (hy : e'.store.get? y = some st) :
    e.store.get? y = some st ∧ y ∉ ids := by
  rw [h.records] at hy
  split at hy
  case isTrue => cases hy
  case isFalse hmem => exact ⟨hy, hmem⟩

theorem Erased.left (h : Erased t ids e e') (hy : e.store.get? y = some st) (hmem : y ∉ ids) :
    e'.store.get? y = some st := by
  rw [h.records, if_neg hmem, hy]

theorem store_remove : (e.remove t x).store = e.store.erase x := by
  rw [remove, onStore, keepStatement, store_onTransaction]

theorem get?_setAuthority {s : Store} {a : Option Authority} :
    (s.setAuthority x a).get? y = s.get? y := rfl

theorem authority?_erase {s : Store} : (s.erase x).authority? y = s.authority? y := by
  rw [Store.erase]
  split <;> rfl

theorem erased_erase : Erased t [x] e (erase t e x).2 := by
  rw [Removal.erase]
  split
  case h_1 hx =>
    have hstore : (e.remove t x).store = e.store := by rw [store_remove, Store.erase, hx]
    refine ⟨fun hi => hstore ▸ hi, by rw [hstore], evolves_remove, fun y => ?_, fun y a ha => ?_,
      fun y _ => by rw [hstore]⟩
    · rw [hstore]
      split
      case isTrue hy => rw [List.mem_singleton.1 hy, hx]
      case isFalse => rfl
    · rw [hstore] at ha
      exact ⟨ha, fun hy => by rw [List.mem_singleton.1 hy, hx]⟩
  case h_2 st hx =>
    dsimp only
    generalize hrest : (Engine.notify _ _ _ : Engine).onTransaction _ _ = e'
    have hevolves : Evolves t ((e.remove t x).setAuthority t x none) e' := by
      rw [← hrest]
      split
      · exact (evolves_notify.trans evolves_notify).trans evolves_addHook
      · exact evolves_notify.trans evolves_addHook
    have hstore : e'.store = (e.store.erase x).setAuthority x none := by
      rw [← hrest, store_onTransaction, store_notify, ← store_remove (t := t),
        ← store_setAuthority (t := t)]
      split
      · rw [store_notify]
      · rfl
    refine ⟨fun hi => ?_, ?_, (evolves_remove.trans evolves_setAuthority).trans hevolves,
      fun y => ?_, fun y a ha => ?_, fun y hy => ?_⟩
    · rw [hstore]
      exact ⟨(hi.erase (x := x)).keyed, (hi.erase (x := x)).mirrors⟩
    · rw [hstore, Store.setAuthority, Store.erase, hx]
    · rw [hstore, get?_setAuthority, get?_erase]
      simp only [List.mem_singleton]
    · rw [hstore, authority?_setAuthority] at ha
      split at ha
      case isTrue => cases ha
      case isFalse hy =>
        exact ⟨authority?_erase.symm.trans ha, fun hmem => absurd (List.mem_singleton.1 hmem) hy⟩
    · rw [hstore, authority?_setAuthority, if_neg]
      · exact authority?_erase
      · exact fun heq => hy (List.mem_singleton.2 heq)

theorem fst_erase : (erase t e x).1 = e.store.get? x := by
  rw [Removal.erase]
  split
  case h_1 hx => exact hx.symm
  case h_2 st hx => exact hx.symm

theorem eraseAssumptions_cons :
    eraseAssumptions t (x :: ids) e =
      ((e.store.get? x).toList ++ (eraseAssumptions t ids (erase t e x).2).1,
        (eraseAssumptions t ids (erase t e x).2).2) := by
  rw [eraseAssumptions]
  dsimp only
  rw [fst_erase]

/-- The records that are erased are those of the statements that were there. -/
theorem mem_eraseAssumptions :
    st ∈ (eraseAssumptions t ids e).1 ↔ ∃ x ∈ ids, e.store.get? x = some st := by
  induction ids generalizing e with
  | nil => simp [eraseAssumptions]
  | cons x rest ih =>
    rw [eraseAssumptions_cons, List.mem_append, Option.mem_toList, ih]
    simp only [List.mem_cons, exists_eq_or_imp, erased_erase.records, List.not_mem_nil, or_false]
    constructor
    · rintro (hx | ⟨y, hy, hget⟩)
      · exact Or.inl hx
      · split at hget
        case isTrue => cases hget
        case isFalse => exact Or.inr ⟨y, hy, hget⟩
    · rintro (hx | ⟨y, hy, hget⟩)
      · exact Or.inl hx
      · by_cases hyx : y = x
        · exact Or.inl (hyx ▸ hget)
        · exact Or.inr ⟨y, hy, by rw [if_neg hyx, hget]⟩

theorem erased_eraseEach (l : List StatementId) : Erased t l e (eraseAssumptions t l e).2 := by
  induction l generalizing e with
  | nil => exact .refl t e
  | cons x rest ih => exact erased_erase.trans ih

theorem erased_eraseAssumptions (l : List StatementId) (hl : l.Nodup) :
    Erased t l e (eraseAssumptions t l e).2 ∧
      (eraseAssumptions t l e).1 = l.filterMap e.store.get? := by
  refine ⟨erased_eraseEach l, ?_⟩
  induction l generalizing e with
  | nil => rfl
  | cons x rest ih =>
    obtain ⟨hx, hrest⟩ := List.nodup_cons.1 hl
    -- the others are as they were once this one is gone
    have hsame : rest.filterMap (erase t e x).2.store.get? = rest.filterMap e.store.get? := by
      apply List.filterMap_congr
      intro y hy
      rw [erased_erase.records, if_neg]
      rw [List.mem_singleton]
      rintro rfl
      exact hx hy
    rw [eraseAssumptions]
    dsimp only
    rw [fst_erase, ih hrest, hsame, List.filterMap_cons]
    cases e.store.get? x <;> rfl

end Engine

/-- The ids that go with a statement when it is removed alone. -/
def Store.bundle (s : Store) (x : StatementId) : List StatementId :=
  x :: ((s.get? x).map Statement.assumptions).getD []

theorem Store.mem_bundle {s : Store} {x y : StatementId} :
    y ∈ s.bundle x ↔ y = x ∨ ∃ st, s.get? x = some st ∧ y ∈ st.assumptions := by
  rw [bundle, List.mem_cons]
  cases s.get? x <;> simp

/-- What a removal keeps of a statement, with its assumptions and its authority. -/
def Store.deleted (s : Store) (st : Statement) : Deleted :=
  { statement := st, assumptions := st.assumptions.filterMap s.get?
    authority := s.authority? st.id }

/-- What is kept is a statement of a store with its assumptions, and is not an assumption. -/
structure Deleted.Records (d : Deleted) (s : Store) : Prop where
  statement : s.get? d.statement.id = some d.statement
  plain : d.statement.isAssumption = false
  assumptions : d.assumptions = d.statement.assumptions.filterMap s.get?

namespace Removal

open Engine Store

variable {t : TransactionId} {H : Graph} {D : Discipline} {e : Engine} {r : Removal}
  {x y : StatementId} {st : Statement}

/-- A removal against the engine it started from: records are as they were or gone. -/
structure Cut (t : TransactionId) (H : Graph) (e : Engine) (r : Removal) : Prop where
  indexed : r.engine.store.Indexed
  allocator : r.engine.store.allocator = e.store.allocator
  evolves : Evolves t e r.engine
  kept : ∀ x st, r.engine.store.get? x = some st → e.store.get? x = some st
  lost : ∀ x st, e.store.get? x = some st → r.engine.store.get? x = some st ∨ st ∈ r.gone
  gone : ∀ st ∈ r.gone, e.store.get? st.id = some st
  records : ∀ d ∈ r.batch, d.Records e.store
  swept : ∀ x st, e.store.get? x = some st →
    r.engine.store.get? x = some st ∨ x ∈ r.batch.flatMap Deleted.ids
  authority : ∀ x a, r.engine.store.authority? x = some a →
    e.store.authority? x = some a ∧ ∃ st, r.engine.store.get? x = some st
  whole : ∀ x st, r.engine.store.get? x = some st → ∀ a ∈ st.assumptions,
    ∃ sa, r.engine.store.get? a = some sa
  buried : H.Buries r.engine.store.graph [r.batch]
  dug : ∀ x ∈ r.batch.flatMap Deleted.ids, ∃ st, e.store.get? x = some st

theorem cut_start (hs : Sound D t H e) : Cut t H e { engine := e } where
  indexed := hs.maintained.indexed
  allocator := rfl
  evolves := .refl t e
  kept _ _ h := h
  lost _ _ h := Or.inl h
  gone _ hst := by cases hst
  records _ hd := by cases hd
  swept _ _ h := Or.inl h
  authority x a ha := by
    obtain ⟨-, c, hc⟩ := hs.maintained.authority ha
    obtain ⟨st, hst, -⟩ := graph_eq_some.1 hc
    exact ⟨ha, st, hst⟩
  whole x st hst a ha := by
    obtain ⟨data, hk, ha⟩ := Statement.mem_assumptions.1 ha
    obtain ⟨c, hc⟩ := hs.maintained.closed.assumption x st.content data a (graph_of_get? hst) hk ha
    obtain ⟨sa, hsa, -⟩ := graph_eq_some.1 hc
    exact ⟨sa, hsa⟩
  buried := ⟨fun _ hd => (by cases hd), fun _ hd => (by cases hd), List.nodup_nil,
    fun _ hx => (by cases hx)⟩
  dug _ hx := by cases hx

theorem Cut.graph_sub (h : Cut t H e r) : r.engine.store.graph.Sub e.store.graph := by
  intro x c hx
  obtain ⟨st, hst, rfl⟩ := graph_eq_some.1 hx
  exact graph_of_get? (h.kept x st hst)

theorem Cut.sub (h : Cut t H e r) (hs : Sound D t H e) : r.engine.store.graph.Sub H :=
  h.graph_sub.trans hs.maintained.sub

theorem Cut.assumption (h : Cut t H e r) (hs : Sound D t H e)
    (hst : r.engine.store.get? x = some st) {a : StatementId} (ha : a ∈ st.assumptions) :
    ∃ sa, r.engine.store.get? a = some sa ∧ sa.owner = some x ∧ sa.isAssumption = true := by
  obtain ⟨sa, hsa⟩ := h.whole x st hst a ha
  obtain ⟨ca, i, hca, howner, hk⟩ := hs.lawful.inside (h.sub hs x _ (graph_of_get? hst)) ha
  cases (h.sub hs a _ (graph_of_get? hsa)).symm.trans hca
  refine ⟨sa, hsa, howner, ?_⟩
  have hk : sa.kind = .assumption i := hk
  rw [Statement.isAssumption, hk]

theorem removeOne_live (hst : r.engine.store.get? x = some st) (hid : st.id = x)
    (hnodup : (x :: st.assumptions).Nodup) :
    ∃ e', r.removeOne t x =
        { engine := e'
          batch := r.batch ++ [r.engine.store.deleted st]
          gone := r.gone ++ st.assumptions.filterMap r.engine.store.get? ++ [st] } ∧
      Erased t (st.assumptions ++ [x]) r.engine e' := by
  obtain ⟨hself, hnodup⟩ := List.nodup_cons.1 hnodup
  obtain ⟨herased, hlist⟩ := erased_eraseAssumptions (t := t) (e := r.engine) st.assumptions hnodup
  refine ⟨(erase t (eraseAssumptions t st.assumptions r.engine).2 x).2, ?_,
    herased.trans erased_erase⟩
  have hsome : (erase t (eraseAssumptions t st.assumptions r.engine).2 x).1 = some st := by
    rw [fst_erase, herased.records, if_neg hself, hst]
  rw [removeOne, hst]
  simp only [hsome, Option.isSome_some, if_true, hlist, deleted, hid]

theorem erased_removeOne (hst : r.engine.store.get? x = some st) :
    Erased t (st.assumptions ++ [x]) r.engine (r.removeOne t x).engine := by
  rw [removeOne, hst]
  dsimp only
  split <;> exact (erased_eraseEach _).trans erased_erase

theorem get?_removeOne (r : Removal) (x y : StatementId) :
    (r.removeOne t x).engine.store.get? y =
      if y ∈ r.engine.store.bundle x then none else r.engine.store.get? y := by
  cases hst : r.engine.store.get? x with
  | none =>
    have hsame : r.removeOne t x = r := by rw [removeOne, hst]
    rw [hsame]
    split
    case isTrue hy =>
      rcases mem_bundle.1 hy with rfl | ⟨st, hst', -⟩
      · exact hst
      · rw [hst] at hst'
        cases hst'
    case isFalse => rfl
  | some st =>
    have hmem : y ∈ st.assumptions ++ [x] ↔ y ∈ r.engine.store.bundle x := by
      rw [mem_bundle, hst, List.mem_append, List.mem_singleton]
      simp [or_comm]
    rw [(erased_removeOne hst).records]
    simp only [hmem]

theorem get?_removeList (l : List StatementId) (r : Removal)
    (hlisted : ∀ x st a sa, r.engine.store.get? x = some st → a ∈ st.assumptions →
      r.engine.store.get? a = some sa → sa.isAssumption = true) (y : StatementId) :
    (l.foldl (removeOne t) r).engine.store.get? y =
      if y ∈ l.flatMap r.engine.store.bundle then none else r.engine.store.get? y := by
  induction l generalizing r with
  | nil => rfl
  | cons x rest ih =>
    have hrecords := get?_removeOne (t := t) r x
    have hleft (z : StatementId) (sz : Statement)
        (hz : (r.removeOne t x).engine.store.get? z = some sz) :
        r.engine.store.get? z = some sz := by
      rw [hrecords] at hz
      split at hz
      · cases hz
      · exact hz
    have hrest := ih (r.removeOne t x) fun z sz a sa hz ha hsa =>
      hlisted z sz a sa (hleft z sz hz) ha (hleft a sa hsa)
    rw [List.foldl_cons, hrest, hrecords, List.flatMap_cons]
    by_cases hy : y ∈ r.engine.store.bundle x
    · simp [hy]
    · -- what the others take with them is the same before and after this one has gone
      have hsame : y ∈ rest.flatMap (r.removeOne t x).engine.store.bundle ↔
          y ∈ rest.flatMap r.engine.store.bundle := by
        simp only [List.mem_flatMap, mem_bundle]
        refine exists_congr fun z => and_congr_right fun _ => or_congr_right ?_
        refine ⟨fun ⟨sz, hsz, hmem⟩ => ⟨sz, hleft z sz hsz, hmem⟩, fun ⟨sz, hsz, hmem⟩ => ?_⟩
        refine ⟨sz, ?_, hmem⟩
        rw [hrecords, if_neg, hsz]
        intro hz
        rcases mem_bundle.1 hz with rfl | ⟨st, hst, hz⟩
        · exact hy (mem_bundle.2 (Or.inr ⟨sz, hsz, hmem⟩))
        · have hassumption := hlisted x st z sz hst hz hsz
          obtain ⟨data, hk, -⟩ := Statement.mem_assumptions.1 hmem
          simp [Statement.isAssumption, hk] at hassumption
      simp [hy, hsame]

theorem indexed_removeOne (hi : r.engine.store.Indexed) :
    (r.removeOne t x).engine.store.Indexed := by
  cases hst : r.engine.store.get? x with
  | none =>
    rw [removeOne, hst]
    exact hi
  | some st => exact (erased_removeOne hst).indexed hi

section TakeOut

variable {e' : Engine} (h : Cut t H e r) (hs : Sound D t H e)
  (hst : r.engine.store.get? x = some st)
  (hx : ∀ st, r.engine.store.get? x = some st → st.isAssumption = false)
  (herased : Erased t (st.assumptions ++ [x]) r.engine e')

include h hst

theorem Cut.live_bundle (hy : y ∈ st.assumptions ++ [x]) :
    ∃ sy, r.engine.store.get? y = some sy := by
  rcases List.mem_append.1 hy with hy | hy
  · exact h.whole x st hst y hy
  · exact ⟨st, List.mem_singleton.1 hy ▸ hst⟩

theorem Cut.mem_ids_deleted : y ∈ (r.engine.store.deleted st).ids ↔ y ∈ st.assumptions ++ [x] := by
  rw [Deleted.ids, deleted, List.mem_cons, List.mem_append, List.mem_singleton,
    h.indexed.keyed x st hst, or_comm]

include hx in
/-- The assumptions that go with a context are those it had at the start. -/
theorem Cut.records_deleted : (r.engine.store.deleted st).Records e.store where
  statement := by
    rw [show (r.engine.store.deleted st).statement = st from rfl, h.indexed.keyed x st hst]
    exact h.kept x st hst
  plain := hx st hst
  assumptions := by
    apply List.filterMap_congr
    intro a ha
    obtain ⟨sa, hsa⟩ := h.whole x st hst a ha
    rw [hsa, h.kept a sa hsa]

include hs herased

include hx in
/-- The contexts that stay keep their assumptions: these have another owner than those that go. -/
theorem Cut.whole_of_erased {sy : Statement} {a : StatementId}
    (hy : e'.store.get? y = some sy) (ha : a ∈ sy.assumptions) :
    ∃ sa, e'.store.get? a = some sa := by
  obtain ⟨hy, hout⟩ := herased.kept hy
  obtain ⟨sa, hsa, howner, hassumption⟩ := h.assumption hs hy ha
  refine ⟨sa, herased.left hsa fun hmem => ?_⟩
  rcases List.mem_append.1 hmem with hmem | hmem
  · obtain ⟨sa', hsa', howner', -⟩ := h.assumption hs hst hmem
    cases hsa.symm.trans hsa'
    cases howner.symm.trans howner'
    exact hout (List.mem_append_right _ (List.mem_singleton_self _))
  · rw [hx sa (List.mem_singleton.1 hmem ▸ hsa)] at hassumption
    cases hassumption

theorem Cut.buried_of_erased :
    H.Buries e'.store.graph [r.batch ++ [r.engine.store.deleted st]] := by
  have hid : (r.engine.store.deleted st).statement.id = x := h.indexed.keyed x st hst
  have hH := h.sub hs x _ (graph_of_get? hst)
  refine h.buried.push ?_ (fun a ha => ?_) ?_ (fun y hy => ?_) (fun y hy => ?_) fun y c hy => ?_
  · rw [hid]
    exact hH
  · rw [hid]
    refine (hs.maintained.authority (h.authority x a ?_).1).1
    rwa [← hid]
  · rw [Deleted.ids, hid]
    exact hs.lawful.nodup_ids hH
  · obtain ⟨sy, hsy⟩ := h.live_bundle hst ((h.mem_ids_deleted hst).1 hy)
    exact ⟨sy.content, graph_of_get? hsy⟩
  · rw [graph, herased.records, if_pos ((h.mem_ids_deleted hst).1 hy)]
    rfl
  · obtain ⟨sy, hsy, rfl⟩ := graph_eq_some.1 hy
    exact graph_of_get? (herased.kept hsy).1

include hx in
theorem Cut.take_out :
    Cut t H e
      { engine := e'
        batch := r.batch ++ [r.engine.store.deleted st]
        gone := r.gone ++ st.assumptions.filterMap r.engine.store.get? ++ [st] } where
  indexed := herased.indexed h.indexed
  allocator := herased.allocator.trans h.allocator
  evolves := h.evolves.trans herased.evolves
  kept y sy hy := h.kept y sy (herased.kept hy).1
  lost y sy hy := by
    simp only [List.mem_append, List.mem_singleton, List.mem_filterMap]
    rcases h.lost y sy hy with hy | hy
    · by_cases hmem : y ∈ st.assumptions ++ [x]
      · rcases List.mem_append.1 hmem with hmem | hmem
        · exact Or.inr (Or.inl (Or.inr ⟨y, hmem, hy⟩))
        · rw [List.mem_singleton.1 hmem, hst] at hy
          exact Or.inr (Or.inr (Option.some.inj hy).symm)
      · exact Or.inl (herased.left hy hmem)
    · exact Or.inr (Or.inl (Or.inl hy))
  gone sy hy := by
    simp only [List.mem_append, List.mem_singleton, List.mem_filterMap] at hy
    rcases hy with (hy | ⟨a, -, hy⟩) | rfl
    · exact h.gone sy hy
    · rw [h.indexed.keyed a sy hy]
      exact h.kept a sy hy
    · rw [h.indexed.keyed x sy hst]
      exact h.kept x sy hst
  records d hd := by
    rcases List.mem_append.1 hd with hd | hd
    · exact h.records d hd
    · rw [List.mem_singleton.1 hd]
      exact h.records_deleted hst hx
  swept y sy hy := by
    rw [List.flatMap_append, List.mem_append, List.flatMap_singleton, h.mem_ids_deleted hst]
    rcases h.swept y sy hy with hy | hy
    · by_cases hmem : y ∈ st.assumptions ++ [x]
      · exact Or.inr (Or.inr hmem)
      · exact Or.inl (herased.left hy hmem)
    · exact Or.inr (Or.inl hy)
  authority y a ha := by
    obtain ⟨ha, hnone⟩ := herased.authority y a ha
    obtain ⟨ha, sy, hy⟩ := h.authority y a ha
    refine ⟨ha, sy, herased.left hy fun hmem => ?_⟩
    rw [hnone hmem] at hy
    cases hy
  whole _ _ hy _ ha := h.whole_of_erased hs hst hx herased hy ha
  buried := h.buried_of_erased hs hst herased
  dug y hy := by
    rw [List.flatMap_append, List.mem_append, List.flatMap_singleton, h.mem_ids_deleted hst] at hy
    rcases hy with hy | hy
    · exact h.dug y hy
    · obtain ⟨sy, hsy⟩ := h.live_bundle hst hy
      exact ⟨sy, h.kept y sy hsy⟩

end TakeOut

theorem Cut.removeOne (h : Cut t H e r) (hs : Sound D t H e)
    (hx : ∀ st, r.engine.store.get? x = some st → st.isAssumption = false) :
    Cut t H e (r.removeOne t x) := by
  cases hst : r.engine.store.get? x with
  | none =>
    have hsame : r.removeOne t x = r := by rw [Removal.removeOne, hst]
    rw [hsame]
    exact h
  | some st =>
    have hnodup := hs.lawful.nodup_ids (h.sub hs x _ (graph_of_get? hst))
    obtain ⟨e', heq, herased⟩ := removeOne_live (t := t) hst (h.indexed.keyed x st hst) hnodup
    rw [heq]
    exact h.take_out hs hst hx herased

theorem Cut.batch_removeOne (h : Cut t H e r) (hs : Sound D t H e)
    (hst : r.engine.store.get? x = some st) :
    (r.removeOne t x).batch = r.batch ++ [r.engine.store.deleted st] := by
  obtain ⟨e', heq, -⟩ := removeOne_live (t := t) hst (h.indexed.keyed x st hst)
    (hs.lawful.nodup_ids (h.sub hs x _ (graph_of_get? hst)))
  rw [heq]

theorem Cut.removeList (h : Cut t H e r) (hs : Sound D t H e) (l : List StatementId)
    (hl : ∀ x ∈ l, ∀ st, r.engine.store.get? x = some st → st.isAssumption = false) :
    Cut t H e (l.foldl (Removal.removeOne t) r) := by
  induction l generalizing r with
  | nil => exact h
  | cons x rest ih =>
    refine ih (h.removeOne hs (hl x List.mem_cons_self)) fun y hy sy hsy => ?_
    rw [get?_removeOne] at hsy
    split at hsy
    · cases hsy
    · exact hl y (List.mem_cons_of_mem _ hy) sy hsy

end Removal

theorem Store.mem_removalOrder {s : Store} {top y : StatementId} (hi : s.Indexed) :
    y ∈ s.removalOrder top ↔
      y = top ∨ s.graph.Within y top ∧ ∃ st, s.get? y = some st ∧ st.isAssumption = false := by
  simp only [removalOrder, List.mem_reverse, mem_dependencySorted, List.mem_append,
    List.mem_filter, mem_descendants hi, List.mem_singleton, Option.any_eq_true, Bool.not_eq_true']
  by_cases hy : y = top <;> simp [hy]

namespace Store

variable {s : Store} {top x y a : StatementId} {st sa : Statement}

theorem live_of_listed (hh : s.graph.Housed) (hst : s.get? x = some st) (ha : a ∈ st.assumptions) :
    ∃ sa, s.get? a = some sa ∧ sa.owner = some x ∧ sa.isAssumption = true := by
  obtain ⟨data, hk, ha⟩ := Statement.mem_assumptions.1 ha
  obtain ⟨c, i, hc, howner, hkind⟩ := (hh.assumptions x _ data a (graph_of_get? hst) hk).1 ha
  obtain ⟨sa, hsa, rfl⟩ := graph_eq_some.1 hc
  exact ⟨sa, hsa, howner, Statement.isAssumption_iff.2 ⟨i, hkind⟩⟩

theorem listed_of_live (hh : s.graph.Housed) (hsa : s.get? a = some sa)
    (hassumption : sa.isAssumption = true) (howner : sa.owner = some x) :
    ∃ st, s.get? x = some st ∧ st.isAssumption = false ∧ a ∈ st.assumptions := by
  obtain ⟨c, data, hc, hk⟩ := hh.owned a _ x (graph_of_get? hsa) howner
  obtain ⟨i, hkind⟩ := Statement.isAssumption_iff.1 hassumption
  obtain ⟨st, hst, rfl⟩ := graph_eq_some.1 hc
  have hk : st.kind = .context data := hk
  refine ⟨st, hst, by rw [Statement.isAssumption, hk], Statement.mem_assumptions.2 ⟨data, hk, ?_⟩⟩
  exact (hh.assumptions x _ data a hc hk).2 ⟨_, i, graph_of_get? hsa, howner, hkind⟩

theorem mem_tree (hi : s.Indexed) (hh : s.graph.Housed) (hy : s.get? y = some st) :
    y ∈ (s.removalOrder top).flatMap s.bundle ↔ s.graph.Within y top := by
  simp only [List.mem_flatMap, mem_removalOrder hi]
  constructor
  · rintro ⟨x, hx, hmem⟩
    have hw : s.graph.Within x top := by
      rcases hx with rfl | ⟨hw, -⟩
      · exact .refl
      · exact hw
    rcases mem_bundle.1 hmem with rfl | ⟨sx, hsx, hmem⟩
    · exact hw
    · obtain ⟨sa, hsa, howner, -⟩ := live_of_listed hh hsx hmem
      exact .head (Graph.ownerOf_eq.2 ⟨sa.content, graph_of_get? hsa, howner⟩) hw
  · intro hw
    by_cases htop : y = top
    · exact ⟨y, Or.inl htop, mem_bundle.2 (Or.inl rfl)⟩
    cases hassumption : st.isAssumption with
    | false => exact ⟨y, Or.inr ⟨hw, st, hy, hassumption⟩, mem_bundle.2 (Or.inl rfl)⟩
    | true =>
      -- an assumption goes with its context, which is inside the top as well
      rcases Relation.ReflTransGen.cases_head hw with rfl | ⟨o, ho, hwo⟩
      · exact absurd rfl htop
      · obtain ⟨c, hc, howner⟩ := Graph.ownerOf_eq.1 ho
        cases (graph_of_get? hy).symm.trans hc
        obtain ⟨so, hso, hplain, hlist⟩ := listed_of_live hh hy hassumption howner
        exact ⟨o, Or.inr ⟨hwo, so, hso, hplain⟩, mem_bundle.2 (Or.inr ⟨so, hso, hlist⟩)⟩

end Store

namespace Removal

open Engine Store

variable {t : TransactionId} {H : Graph} {D : Discipline} {e : Engine} {r : Removal}
  {top x y : StatementId} {st : Statement}

theorem get?_removeTree (hi : r.engine.store.Indexed) (hh : r.engine.store.graph.Housed) :
    (r.removeTree t top).engine.store.get? y = some st ↔
      r.engine.store.get? y = some st ∧ ¬r.engine.store.graph.Within y top := by
  have hrecords := get?_removeList (t := t) (r.engine.store.removalOrder top) r
    (fun x st a sa hst ha hsa => by
      obtain ⟨sa', hsa', -, hassumption⟩ := live_of_listed hh hst ha
      cases hsa.symm.trans hsa'
      exact hassumption) y
  rw [removeTree, hrecords]
  split
  case isTrue hy =>
    exact ⟨fun h => (by cases h), fun ⟨hst, hw⟩ => absurd ((mem_tree hi hh hst).1 hy) hw⟩
  case isFalse hy =>
    exact ⟨fun hst => ⟨hst, fun hw => hy ((mem_tree hi hh hst).2 hw)⟩, And.left⟩

theorem indexed_removeTree (hi : r.engine.store.Indexed) :
    (r.removeTree t top).engine.store.Indexed := by
  rw [removeTree]
  generalize r.engine.store.removalOrder top = l
  induction l generalizing r with
  | nil => exact hi
  | cons x rest ih => exact ih (indexed_removeOne hi)

/-- A tree whose top is not an assumption leaves no owner and no list of assumptions broken. -/
theorem housed_removeTree (hi : r.engine.store.Indexed) (hh : r.engine.store.graph.Housed)
    (htop : ∀ st, r.engine.store.get? top = some st → st.isAssumption = false) :
    (r.removeTree t top).engine.store.graph.Housed := by
  have hleft (y : StatementId) (c : Content) :
      (r.removeTree t top).engine.store.graph y = some c ↔
        r.engine.store.graph y = some c ∧ ¬r.engine.store.graph.Within y top := by
    simp only [graph_eq_some, get?_removeTree hi hh]
    constructor
    · rintro ⟨st, ⟨hst, hout⟩, hc⟩
      exact ⟨⟨st, hst, hc⟩, hout⟩
    · rintro ⟨⟨st, hst, hc⟩, hout⟩
      exact ⟨st, ⟨hst, hout⟩, hc⟩
  constructor
  · intro x c o hx ho
    obtain ⟨hx, hout⟩ := (hleft x c).1 hx
    obtain ⟨co, data, hco, hk⟩ := hh.owned x c o hx ho
    refine ⟨co, data, (hleft o co).2 ⟨hco, fun hw => hout ?_⟩, hk⟩
    exact .head (Graph.ownerOf_eq.2 ⟨c, hx, ho⟩) hw
  · intro x c data a hx hk
    obtain ⟨hx, hout⟩ := (hleft x c).1 hx
    rw [hh.assumptions x c data a hx hk]
    refine exists₂_congr fun ca i => ?_
    rw [hleft]
    constructor
    · rintro ⟨hca, howner, hkind⟩
      refine ⟨⟨hca, fun hw => ?_⟩, howner, hkind⟩
      -- an assumption is inside the top only if its context is
      rcases Relation.ReflTransGen.cases_head hw with rfl | ⟨o, ho, hwo⟩
      · obtain ⟨sa, hsa, rfl⟩ := graph_eq_some.1 hca
        have hplain := htop sa hsa
        rw [Statement.isAssumption_iff.2 ⟨i, hkind⟩] at hplain
        cases hplain
      · obtain ⟨ca', hca', howner'⟩ := Graph.ownerOf_eq.1 ho
        cases hca.symm.trans hca'
        cases howner.symm.trans howner'
        exact hout hwo
    · rintro ⟨⟨hca, -⟩, howner, hkind⟩
      exact ⟨hca, howner, hkind⟩

theorem Cut.housed (h : Cut t H e r) (hs : Sound D t H e) (hr : r.engine.store.graph.Rooted) :
    r.engine.store.graph.Housed where
  owned := (hs.lawful.forest_of_sub (h.sub hs) hr).owned
  assumptions x c data a hx hk := by
    constructor
    · intro ha
      obtain ⟨st, hst, rfl⟩ := graph_eq_some.1 hx
      obtain ⟨sa, hsa, howner, hassumption⟩ :=
        h.assumption hs hst (Statement.mem_assumptions.2 ⟨data, hk, ha⟩)
      obtain ⟨i, hkind⟩ := Statement.isAssumption_iff.1 hassumption
      exact ⟨sa.content, i, graph_of_get? hsa, howner, hkind⟩
    · rintro ⟨ca, i, hca, howner, hkind⟩
      obtain ⟨o, co, data', ho, hco, hkind', hlist⟩ :=
        hs.lawful.assumption (h.sub hs a ca hca) hkind
      cases howner.symm.trans ho
      cases (h.sub hs x c hx).symm.trans hco
      cases hk.symm.trans hkind'
      exact List.mem_of_getElem? hlist

theorem Cut.removeTree (h : Cut t H e r) (hs : Sound D t H e) (hr : r.engine.store.graph.Rooted)
    (htop : ∀ st, r.engine.store.get? top = some st → st.isAssumption = false) :
    Cut t H e (r.removeTree t top) ∧ ∀ y st, (r.removeTree t top).engine.store.get? y = some st ↔
      r.engine.store.get? y = some st ∧ ¬r.engine.store.graph.Within y top := by
  refine ⟨h.removeList hs (r.engine.store.removalOrder top) fun x hx st hst => ?_,
    fun y st => get?_removeTree h.indexed (h.housed hs hr)⟩
  rcases (mem_removalOrder h.indexed).1 hx with rfl | ⟨-, st', hst', hplain⟩
  · exact htop st hst
  · cases hst.symm.trans hst'
    exact hplain

end Removal

end StatementGraph
