import StatementGraph.Proofs.Cascade
import StatementGraph.Proofs.Checking
import StatementGraph.Proofs.Labels

namespace StatementGraph

theorem Statement.isAssumption_of_isContext {st : Statement} (h : st.isContext = true) :
    st.isAssumption = false := by
  obtain ⟨data, hk⟩ := isContext_iff.1 h
  rw [isAssumption, hk]

theorem Graph.Sees.within_root {G : Graph} {x y root : StatementId} {c : Content} (h : G.Sees x y)
    (hroot : G root = some c) (howner : c.owner = none) (hw : G.Within y root) :
    G.Within x root := by
  obtain ⟨cy, o, hcy, ho, hwx⟩ := h
  rcases (within_iff_owner (ownerOf_eq.2 ⟨cy, hcy, ho⟩)).1 hw with rfl | hwo
  · cases hroot.symm.trans hcy
    cases howner.symm.trans ho
  · exact hwx.trans hwo

namespace Store

variable {s : Store} {context x y : StatementId} {ids : List StatementId}

theorem requireRemovable_eq_ok {st : Statement} : s.requireRemovable context x = .ok st ↔
    s.get? x = some st ∧ st.isAssumption = false ∧ st.owner = some context := by
  rw [requireRemovable, bind_eq_ok]
  constructor
  · rintro ⟨st', hst, h⟩
    have hst := require_eq_ok.1 hst
    cases hassumption : st'.isAssumption with
    | true =>
      rw [hassumption] at h
      cases h
    | false =>
      rw [hassumption, if_neg Bool.false_ne_true] at h
      dsimp only at h
      split at h
      · cases h
      case isFalse howner =>
        cases h
        exact ⟨hst, hassumption, not_not.1 howner⟩
  · rintro ⟨hst, hassumption, howner⟩
    refine ⟨st, require_eq_ok.2 hst, ?_⟩
    rw [hassumption, if_neg Bool.false_ne_true, if_neg (not_not_intro howner)]
    rfl

theorem removalOf_eq_ok {removal : IdSet} (h : s.removalOf context ids = .ok removal) :
    (∀ x ∈ ids, ∃ st, s.get? x = some st ∧ st.isAssumption = false ∧ st.owner = some context) ∧
      ∀ y, y ∈ removal ↔ ∃ x ∈ ids, ∃ st, s.get? x = some st ∧ y ∈ s.membersOf st := by
  have hgeneral (ids : List StatementId) (start : IdSet) (h : ids.foldlM (fun removal id => do
      let st ← s.requireRemovable context id
      return removal.union (s.membersOf st)) start = Except.ok removal) :
      (∀ x ∈ ids, ∃ st, s.get? x = some st ∧ st.isAssumption = false ∧
        st.owner = some context) ∧ ∀ y, y ∈ removal ↔
        y ∈ start ∨ ∃ x ∈ ids, ∃ st, s.get? x = some st ∧ y ∈ s.membersOf st := by
    induction ids generalizing start with
    | nil =>
      cases h
      simp
    | cons id rest ih =>
      rw [List.foldlM_cons] at h
      obtain ⟨next, hnext, h⟩ := bind_eq_ok.1 h
      obtain ⟨st, hst, hunion⟩ := bind_eq_ok.1 hnext
      cases hunion
      obtain ⟨hst, hplain⟩ := requireRemovable_eq_ok.1 hst
      obtain ⟨hrest, hmem⟩ := ih (start.union (s.membersOf st)) h
      refine ⟨List.forall_mem_cons.2 ⟨⟨st, hst, hplain⟩, hrest⟩, fun y => ?_⟩
      rw [hmem, IdSet.mem_union]
      simp [hst, or_assoc]
  simpa using hgeneral ids IdSet.empty h

theorem mem_removalOf {removal : IdSet} (hi : s.Indexed) (ho : s.graph.Owned)
    (h : s.removalOf context ids = .ok removal) :
    y ∈ removal ↔ ∃ x ∈ ids, s.graph.Within y x := by
  obtain ⟨hids, hmem⟩ := removalOf_eq_ok h
  rw [hmem]
  refine exists_congr fun x => and_congr_right fun hx => ?_
  obtain ⟨st, hst, -⟩ := hids x hx
  simp [hst, mem_membersOf hi ho hst]

theorem removalOf_of_own (h : ∀ x ∈ ids, ∃ st, s.get? x = some st ∧ st.isAssumption = false ∧
    st.owner = some context) : ∃ removal, s.removalOf context ids = .ok removal := by
  rw [removalOf]
  generalize IdSet.empty = start
  induction ids generalizing start with
  | nil => exact ⟨start, rfl⟩
  | cons id rest ih =>
    obtain ⟨⟨st, hst⟩, hrest⟩ := List.forall_mem_cons.1 h
    rw [List.foldlM_cons, requireRemovable_eq_ok.2 hst]
    exact ih hrest _

/-- Trees whose tops are no assumptions and on which nothing outside them depends. -/
structure Removable (s : Store) (l : List StatementId) : Prop where
  plain : ∀ x ∈ l, ∃ st, s.get? x = some st ∧ st.isAssumption = false
  free : ∀ y c d, s.graph y = some c → d ∈ c.dependencies → (∃ x ∈ l, s.graph.Within d x) →
    ∃ x ∈ l, s.graph.Within y x

theorem Removable.congr {l : List StatementId} (h : s.Removable ids)
    (hl : ∀ x, x ∈ l ↔ x ∈ ids) : s.Removable l := by
  constructor
  · intro x hx
    exact h.plain x ((hl x).1 hx)
  · intro y c d hy hd hin
    simp only [hl] at hin ⊢
    exact h.free y c d hy hd hin

theorem removable_of_free {removal : IdSet} (hi : s.Indexed)
    (hplain : ∀ x ∈ ids, ∃ st, s.get? x = some st ∧ st.isAssumption = false)
    (hremoval : ∀ y, y ∈ removal ↔ ∃ x ∈ ids, s.graph.Within y x)
    (hfree : (s.outsideDependents removal).isEmpty = true) : s.Removable ids := by
  refine ⟨hplain, fun y c d hy hd hin => ?_⟩
  rw [← hremoval] at hin ⊢
  by_contra hout
  exact IdSet.isEmpty_iff.1 hfree y ((mem_outsideDependents hi).2 ⟨⟨d, hin, c, hy, hd⟩, hout⟩)

end Store

namespace Engine

open Store Removal

variable {t : TransactionId} {H : Graph} {D : Discipline} {e : Engine}
  {context root x : StatementId} {l ids : List StatementId}

/-- Removing trees on which nothing outside depends leaves a closed graph. -/
theorem cut_removeTrees (hs : Sound D t H e) (hl : e.store.Removable l) :
    Cut t H e (l.foldl (Removal.removeTree t) { engine := e }) ∧
      (l.foldl (Removal.removeTree t) { engine := e }).engine.store.graph.Closed ∧
      ∀ y st, (l.foldl (Removal.removeTree t) { engine := e }).engine.store.get? y = some st ↔
        e.store.get? y = some st ∧ ∀ x ∈ l, ¬e.store.graph.Within y x := by
  obtain ⟨hcut, hr, hleft⟩ := (cut_start hs).removeTrees hs hs.maintained.closed.owner l
    fun x hx st hst => by
      obtain ⟨st', hst', hplain⟩ := hl.plain x hx
      cases hst.symm.trans hst'
      exact hplain
  refine ⟨hcut, hcut.closed hs hr fun x st d hst hd => ?_, hleft⟩
  obtain ⟨hst, hout⟩ := (hleft x st).1 hst
  have hx := graph_of_get? hst
  obtain ⟨c, hc⟩ := hs.maintained.closed.dependency x st.content d hx hd
  obtain ⟨sd, hsd, -⟩ := graph_eq_some.1 hc
  refine ⟨sd, (hleft d sd).2 ⟨hsd, ?_⟩⟩
  intro y hy hin
  obtain ⟨z, hz, hw⟩ := hl.free x st.content d hx hd ⟨y, hy, hin⟩
  exact hout z hz hw

/-- The trees of statements of a context go, in the opposite order of their dependencies. -/
structure Clears (t : TransactionId) (context : StatementId) (ids : List StatementId) (e : Engine)
    (w : Removal) : Prop where
  removable : e.store.Removable ids
  owner : ∀ x ∈ ids, e.store.graph.ownerOf x = some context
  work : w = ((e.store.dependencySorted ids false).reverse.foldl (removeTree t)
    { engine := e }).recheck t

theorem answered_requireRemovable {s : Store} :
    Answered (s.requireRemovable context x) := by
  refine answered_bind answered_require fun st => ?_
  dsimp only
  repeat' split
  all_goals first | exact answered_ok st | exact answered_error rfl

theorem answered_removalOf {s : Store} : Answered (s.removalOf context ids) := by
  rw [removalOf]
  generalize IdSet.empty = removal
  induction ids generalizing removal with
  | nil => exact answered_ok removal
  | cons x rest ih =>
    rw [List.foldlM_cons]
    exact answered_bind (answered_bind answered_requireRemovable fun _ => answered_ok _) ih

theorem drops_removeStatements (hs : Sound D t H e) :
    Drops D t H e (removeStatements t context ids) (Clears t context ids) := by
  refine drops_ensureOpen_bind hs (drops_get_bind ?_)
  refine drops_lift_bind hs answered_requireContext fun _ _ => ?_
  refine drops_lift_bind hs answered_removalOf fun removal hremoval => ?_
  dsimp only
  split
  case isTrue => exact drops_throw_bind hs rfl
  case isFalse hfree =>
    rw [Bool.not_eq_true', Bool.not_eq_false] at hfree
    refine drops_bind (grows_lockAll hs) fun e' _ hs' hstore => ?_
    rw [← hstore] at hremoval hfree ⊢
    have hm := hs'.maintained
    obtain ⟨hids, -⟩ := removalOf_eq_ok hremoval
    refine drops_carryOut hs' ⟨removable_of_free hm.indexed (fun x hx => ?_)
      (fun _ => mem_removalOf hm.indexed (hm.forest hs'.lawful).owned hremoval) hfree,
      fun x hx => ?_, rfl⟩
    · obtain ⟨st, hst, hplain, -⟩ := hids x hx
      exact ⟨st, hst, hplain⟩
    · obtain ⟨st, hst, -, howner⟩ := hids x hx
      exact Graph.ownerOf_eq.2 ⟨st.content, graph_of_get? hst, howner⟩

theorem mem_reverse_dependencySorted {s : Store} : x ∈ (s.dependencySorted ids false).reverse ↔
    x ∈ ids := by
  rw [List.mem_reverse, mem_dependencySorted]

theorem Clears.removes {w : Removal} (hs : Sound D t H e) (h : Clears t context ids e w) :
    Removes t H e (w.record t) w.batch := by
  obtain ⟨hcut, hclosed, -⟩ := cut_removeTrees hs
    (h.removable.congr fun _ => mem_reverse_dependencySorted)
  rw [h.work]
  exact removes_recheck hcut hs hclosed

theorem sheds_removeStatements (hs : Sound D t H e) :
    Sheds D t H e (removeStatements t context ids) :=
  (drops_removeStatements hs).sheds fun _ _ hs h => h.removes hs

structure Uproots (t : TransactionId) (root : StatementId) (e : Engine) (w : Removal) : Prop where
  removable : e.store.Removable [root]
  owner : ∀ c, e.store.graph root = some c → c.owner = none
  work : w = removeTree t { engine := e } root

theorem drops_removeRoot (hs : Sound D t H e) :
    Drops D t H e (removeRoot t root) (Uproots t root) := by
  refine drops_ensureOpen_bind hs (drops_get_bind ?_)
  refine drops_lift_bind hs answered_requireContext fun st hrequire => ?_
  obtain ⟨hst, hctx⟩ := requireContext_eq_ok.1 hrequire
  dsimp only
  split
  case h_1 => exact drops_throw_bind hs rfl
  case h_2 howner =>
    split
    case isTrue => exact drops_throw_bind hs rfl
    case isFalse hfree =>
      rw [Bool.not_eq_true', Bool.not_eq_false] at hfree
      refine drops_bind (grows_lockAll hs) fun e' _ hs' hstore => ?_
      rw [← hstore] at hst hfree
      have hm := hs'.maintained
      have hplain := Statement.isAssumption_of_isContext hctx
      refine drops_carryOut hs' ⟨removable_of_free hm.indexed ?_ (fun y => ?_) hfree,
        fun c hc => ?_, rfl⟩
      · simpa using ⟨st, hst, hplain⟩
      · simp [mem_membersOf hm.indexed (hm.forest hs'.lawful).owned hst]
      · cases (graph_of_get? hst).symm.trans hc
        exact howner

/-- A root is not seen from anywhere else, and nor is what is inside it: no solver is lost. -/
theorem Uproots.removes {w : Removal} (hs : Sound D t H e) (h : Uproots t root e w) :
    Removes t H e (w.record t) w.batch := by
  obtain ⟨hcut, hclosed, hleft⟩ := cut_removeTrees hs h.removable
  have hwork : w = [root].foldl (removeTree t) { engine := e } := h.work
  rw [hwork]
  refine removes_of_unsolved hcut hs hclosed ?_
  intro y x sy c hsolves hy _ hgone hx
  obtain ⟨st, hst, -⟩ := h.removable.plain root (List.mem_singleton_self root)
  have hyin : e.store.graph.Within y root := by
    by_contra hout
    refine absurd (graph_of_get? ((hleft y sy).2 ⟨hy, ?_⟩)) (hgone ▸ nofun)
    simpa using hout
  obtain ⟨sx, hsx, -⟩ := graph_eq_some.1 hx
  apply ((hleft x sx).1 hsx).2 root (List.mem_singleton_self root)
  exact hsolves.2.1.within_root (graph_of_get? hst) (h.owner _ (graph_of_get? hst)) hyin

theorem sheds_removeRoot (hs : Sound D t H e) : Sheds D t H e (removeRoot t root) :=
  (drops_removeRoot hs).sheds fun _ _ hs h => h.removes hs

def Cascades (t : TransactionId) (e : Engine) (w : Removal) : Prop :=
  ∃ target st, e.store.get? target = some st ∧ st.isAssumption = false ∧
    w = (cascade t (2 * e.store.mentioned.length + 2) [target] [target] { engine := e }).recheck t

theorem drops_removeCascade (hs : Sound D t H e) :
    Drops D t H e (removeCascade t context x) (Cascades t) := by
  refine drops_ensureOpen_bind hs (drops_get_bind ?_)
  refine drops_lift_bind hs answered_requireContext fun sc hctx => ?_
  refine drops_lift_bind hs answered_require fun st hrequire => ?_
  dsimp only
  split
  case isTrue => exact drops_throw_bind hs rfl
  case isFalse howner =>
    refine drops_bind (grows_lockAll hs) fun e' _ hs' hstore => ?_
    rw [← hstore] at hctx hrequire ⊢
    refine drops_carryOut hs' ?_
    split
    case isTrue =>
      obtain ⟨hcontext, hkind⟩ := requireContext_eq_ok.1 hctx
      exact ⟨context, sc, hcontext, Statement.isAssumption_of_isContext hkind, rfl⟩
    case isFalse hst =>
      exact ⟨x, st, require_eq_ok.1 hrequire, by simpa using hst, rfl⟩

theorem cascading_start {target : StatementId} {st : Statement} (hs : Sound D t H e)
    (hst : e.store.get? target = some st) (hplain : st.isAssumption = false) :
    ∃ visited, target ∈ visited ∧ Cascading t H e visited []
      (cascade t (2 * e.store.mentioned.length + 2) [target] [target] { engine := e }) := by
  have hstart : Cascading t H e [target] [target] { engine := e } := by
    refine ⟨cut_start hs, hs.maintained.closed, ?_, fun u hu _ _ => hu,
      List.pairwise_singleton _ _, undoable_start⟩
    intro u hu su hsu
    cases List.mem_singleton.1 hu
    cases hst.symm.trans hsu
    exact hplain
  have hle := List.length_filter_le (· ∉ [target]) e.store.mentioned
  obtain ⟨visited, hmore, hdone⟩ := hstart.run hs
    (fun _ _ => mem_mentioned hs.maintained.indexed) (2 * e.store.mentioned.length + 2)
    (by rw [List.length_singleton]; omega)
  exact ⟨visited, hmore target (List.mem_singleton_self target), hdone⟩

theorem Cascades.removes {w : Removal} (hs : Sound D t H e) (h : Cascades t e w) :
    Removes t H e (w.record t) w.batch := by
  obtain ⟨target, st, hst, hplain, rfl⟩ := h
  obtain ⟨visited, -, hdone⟩ := cascading_start hs hst hplain
  exact removes_recheck hdone.cut hs hdone.closed

theorem sheds_removeCascade (hs : Sound D t H e) : Sheds D t H e (removeCascade t context x) :=
  (drops_removeCascade hs).sheds fun _ _ hs h => h.removes hs

end Engine

end StatementGraph
