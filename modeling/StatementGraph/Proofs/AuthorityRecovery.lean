import StatementGraph.Proofs.Bookkeeping
import StatementGraph.Proofs.Undoing

namespace StatementGraph

namespace Removal

open Engine Store

variable {t : TransactionId} {e : Engine} {r r' : Removal} {x : StatementId}

/-- A removal against the engine it started from, as far as authorities go. -/
structure Strips (e : Engine) (r : Removal) : Prop where
  left : ∀ x st, r.engine.store.get? x = some st →
    e.store.get? x = some st ∧ r.engine.store.authority? x = e.store.authority? x
  gone : ∀ x st, e.store.get? x = some st → r.engine.store.get? x = none →
    r.engine.store.authority? x = none
  kept : ∀ d ∈ r.batch, e.store.get? d.statement.id = some d.statement ∧
    d.authority = e.store.authority? d.statement.id
  noted : r.batch = [] → ∀ x, r.engine.store.get? x = e.store.get? x

theorem strips_start (e : Engine) : Strips e { engine := e } where
  left _ _ hx := ⟨hx, rfl⟩
  gone _ _ hx hgone := by cases hx.symm.trans hgone
  kept d hd := absurd hd List.not_mem_nil
  noted _ _ := rfl

theorem removeOne_apart {st : Statement} (hx : r.engine.store.get? x = some st)
    (hself : x ∉ st.assumptions) :
    ∃ e' assumptions gone, r.removeOne t x =
        { engine := e', batch := r.batch ++ [⟨st, assumptions, r.engine.store.authority? x⟩],
          gone } ∧
      Erased t (st.assumptions ++ [x]) r.engine e' ∧
      ∀ sa ∈ assumptions, ∃ y ∈ st.assumptions, r.engine.store.get? y = some sa := by
  have hassumptions := erased_eraseEach (t := t) (e := r.engine) st.assumptions
  have hsome : (erase t (eraseAssumptions t st.assumptions r.engine).2 x).1 = some st := by
    rw [fst_erase, hassumptions.records, if_neg hself, hx]
  refine ⟨_, (eraseAssumptions t st.assumptions r.engine).1,
    r.gone ++ (eraseAssumptions t st.assumptions r.engine).1 ++ [st], ?_,
    hassumptions.trans (erased_erase (x := x)), fun sa => mem_eraseAssumptions.1⟩
  rw [Removal.removeOne, hx]
  dsimp only
  rw [hsome, if_pos (Option.isSome_some)]

theorem Strips.removeOne (h : Strips e r) (ho : e.Orderly) : Strips e (r.removeOne t x) := by
  cases hx : r.engine.store.get? x with
  | none =>
    rw [Removal.removeOne, hx]
    exact h
  | some st =>
    obtain ⟨hstart, hauthority⟩ := h.left x st hx
    have hid := ho.filed.indexed.keyed x st hstart
    have hself : x ∉ st.assumptions := by
      rw [← hid]
      exact ho.apart x st hstart
    obtain ⟨e', assumptions, gone, hrun, herased, -⟩ := removeOne_apart (t := t) hx hself
    rw [hrun]
    refine ⟨fun y sy hy => ?_, fun y sy hy hgone => ?_, fun d hd => ?_, fun hnil => ?_⟩
    · obtain ⟨hy, hout⟩ := herased.kept hy
      obtain ⟨hy, hsame⟩ := h.left y sy hy
      exact ⟨hy, (herased.others y hout).trans hsame⟩
    · apply Option.eq_none_iff_forall_ne_some.2
      intro a ha
      obtain ⟨ha, hnone⟩ := herased.authority y a ha
      have hlost : r.engine.store.get? y = none := by
        by_cases hmem : y ∈ st.assumptions ++ [x]
        · exact hnone hmem
        · exact ((herased.records y).trans (if_neg hmem)).symm.trans hgone
      cases ha.symm.trans (h.gone y sy hy hlost)
    · rcases List.mem_append.1 hd with hold | hnew
      · exact h.kept d hold
      · cases List.mem_singleton.1 hnew
        rw [hid]
        exact ⟨hstart, hauthority⟩
    · cases List.append_ne_nil_of_right_ne_nil _ (List.cons_ne_nil _ _) hnil

theorem Strips.runs (h : Strips e r) (ho : e.Orderly) (hruns : Runs t r r') : Strips e r' := by
  induction hruns with
  | refl => exact h
  | tail _ hstep ih =>
    obtain ⟨x, rfl⟩ := hstep
    exact ih.removeOne ho

end Removal

namespace Engine

open Store Removal

variable {t : TransactionId} {e e' : Engine} {x : StatementId} {α β : Type}
  {batch : DeletionBatch}

/-! ### Removals -/

/-- What is gone has no authority, and a batch has the authorities of its statements. -/
structure Stripped (e : Engine) (batch : DeletionBatch) (e' : Engine) : Prop where
  gone : ∀ x st, e.store.get? x = some st → e'.store.get? x = none →
    batch ≠ [] ∧ e'.store.authority? x = none
  kept : ∀ d ∈ batch, e.store.get? d.statement.id = some d.statement ∧
    d.authority = e.store.authority? d.statement.id

/-- Deriving flags anew neither brings anything back nor gives an authority. -/
theorem Stripped.of_reflagged {r : Removal} (h : r.Strips e)
    (hr : r.engine.store.Reflagged e'.store) : Stripped e r.batch e' where
  gone x st hx hgone := by
    have hlost : r.engine.store.get? x = none := by
      have hgraph := congrFun hr.graph x
      rw [graph, graph, hgone] at hgraph
      exact Option.map_eq_none_iff.1 hgraph.symm
    refine ⟨fun hnil => ?_, ?_⟩
    · cases hx.symm.trans ((h.noted hnil x).symm.trans hlost)
    · rw [authority?, hr.authorities]
      exact h.gone x st hx hlost
  kept := h.kept

def Fells (t : TransactionId) (e : Engine) (m : Action (List StatementId)) : Prop :=
  ∀ removed e', m.perform e = (.ok removed, e') → ∃ e₀ batch e₁, e₀.store = e.store ∧
    Changes t e e₁ ∧ e₁.isOpen t = true ∧ Stripped e₀ batch e₁ ∧
    e' = e₁.onTransaction t (·.addDeletions batch)

variable {m : Action α} {k : α → Action (List StatementId)}

theorem Changes.isOpen (h : Changes t e e') (hopen : e.isOpen t = true) : e'.isOpen t = true := by
  obtain ⟨tx, htx, hclosed⟩ := isOpen_iff.1 hopen
  obtain ⟨tx', htx', ha⟩ := h.proceeds.own tx htx
  exact isOpen_iff.2 ⟨tx', htx', ha.closed.trans hclosed⟩

theorem fells_bind (h : Moves t e m) (ho : e.Orderly) (hopen : e.isOpen t = true)
    (hk : ∀ a e', m.perform e = (.ok a, e') → e'.Orderly → e'.isOpen t = true →
      e'.store = e.store ∧ Fells t e' (k a)) : Fells t e (m >>= k) := by
  intro removed e' hrun
  obtain ⟨a, e₁, hm, hrun⟩ := bind_performs.1 hrun
  have hfirst : Changes t e e₁ := by
    have hmoves := h ho
    rw [hm] at hmoves
    exact hmoves
  obtain ⟨hstore, hrest⟩ := hk a e₁ hm (ho.changes hfirst) (hfirst.isOpen hopen)
  obtain ⟨e₀, batch, e₂, hstore', hchanges, hopen', hstripped, he⟩ := hrest removed e' hrun
  exact ⟨e₀, batch, e₂, hstore'.trans hstore, hfirst.trans hchanges, hopen', hstripped, he⟩

theorem fells_lift_bind {y : Except Failure α} (h : ∀ a, Fells t e (k a)) :
    Fells t e (liftM y >>= k) := by
  cases y with
  | error f =>
    intro removed e' hrun
    cases hrun
  | ok a => exact h a

/-- Everything that goes is locked, and then the statements are removed one after the other. -/
theorem fells_carryOut {ids : IdSet} {work : Removal → Removal} (ho : e.Orderly)
    (hopen : e.isOpen t = true)
    (hwork : ∀ r, ∃ r', Runs t r r' ∧ (work r = r' ∨ work r = r'.recheck t)) :
    Fells t e (do
      lockAll t ids
      carryOut t work) := by
  refine fells_bind moves_lockAll ho hopen fun _ e₀ hlock ho₀ hopen₀ => ⟨store_lockAll hlock, ?_⟩
  intro removed e' hrun
  cases hrun
  obtain ⟨r', hruns, hlast⟩ := hwork { engine := e₀ }
  have hstrips := (strips_start e₀).runs ho₀ hruns
  obtain ⟨hchanges, hbatch⟩ := pursues_of_runs hruns ho₀ fun d hd => absurd hd List.not_mem_nil
  rcases hlast with hlast | hlast
  · rw [hlast]
    exact ⟨e₀, r'.batch, r'.engine, rfl, hchanges, hchanges.isOpen hopen₀,
      .of_reflagged hstrips (.refl _), rfl⟩
  · obtain ⟨hrecheck, -⟩ := pursues_recheck (t := t) r' (ho₀.changes hchanges) hbatch
    have hreflagged : r'.engine.store.Reflagged (r'.recheck t).engine.store := by
      rw [recheck]
      split
      · exact .refl _
      · exact reflagged_rederive (ho₀.changes hchanges).filed.indexed
    have hbatch : (r'.recheck t).batch = r'.batch := by
      rw [recheck]
      split <;> rfl
    rw [hlast, record, hbatch]
    exact ⟨e₀, r'.batch, (r'.recheck t).engine, rfl, hchanges.trans hrecheck,
      (hchanges.trans hrecheck).isOpen hopen₀, .of_reflagged hstrips hreflagged, rfl⟩

theorem fells_ensureOpen_bind {k : Unit → Action (List StatementId)}
    (h : e.isOpen t = true → Fells t e (k ())) : Fells t e (ensureOpen t >>= k) := by
  cases hopen : e.isOpen t with
  | false =>
    intro removed e' hrun
    rw [perform_closed hopen] at hrun
    cases hrun
  | true =>
    rw [Fells, perform_bind, perform_ensureOpen hopen]
    exact h hopen

theorem fells_get_bind {k : Engine → Action (List StatementId)} (h : Fells t e (k e)) :
    Fells t e (get >>= k) := h

theorem fells_throw_bind {f : Failure} : Fells t e (throw f >>= k) := by
  intro removed e' hrun
  cases hrun

theorem fells_removeStatements (ho : e.Orderly) {context : StatementId} {ids : List StatementId} :
    Fells t e (removeStatements t context ids) := by
  apply fells_ensureOpen_bind
  intro hopen
  refine fells_get_bind (fells_lift_bind fun _ => fells_lift_bind fun _ => ?_)
  dsimp only
  split
  · exact fells_throw_bind
  · exact fells_carryOut ho hopen fun r => ⟨_, runs_removeTrees r _, Or.inr rfl⟩

theorem fells_removeRoot (ho : e.Orderly) {root : StatementId} :
    Fells t e (removeRoot t root) := by
  apply fells_ensureOpen_bind
  intro hopen
  refine fells_get_bind (fells_lift_bind fun _ => ?_)
  dsimp only
  split
  · exact fells_throw_bind
  · split
    · exact fells_throw_bind
    · exact fells_carryOut ho hopen fun r => ⟨_, runs_removeTree r root, Or.inl rfl⟩

theorem fells_removeCascade (ho : e.Orderly) {context id : StatementId} :
    Fells t e (removeCascade t context id) := by
  apply fells_ensureOpen_bind
  intro hopen
  refine fells_get_bind (fells_lift_bind fun _ => fells_lift_bind fun _ => ?_)
  dsimp only
  split
  · exact fells_throw_bind
  · exact fells_carryOut ho hopen fun r => ⟨_, runs_cascade _ _ _ r, Or.inr rfl⟩

/-! ### Restorations -/

/-- An action leaves authorities alone, also when it fails. -/
def Spares (e : Engine) (m : Action α) : Prop :=
  (m.perform e).2.store.authorities = e.store.authorities

theorem spares_bind {k : α → Action β} (h : Spares e m) (hk : ∀ a e', Spares e' (k a)) :
    Spares e (m >>= k) := by
  rw [Spares] at h ⊢
  rw [perform_bind]
  cases hm : m.perform e with
  | mk r e₁ =>
    rw [hm] at h
    cases r with
    | error f => exact h
    | ok a => exact (hk a e₁).trans h

theorem spares_get_bind {k : Engine → Action β} (h : Spares e (k e)) : Spares e (get >>= k) := h

theorem spares_await {run : Propagation}
    (h : run.engine.store.authorities = e.store.authorities) : Spares e (await run) := by
  rw [Spares]
  rcases await_cases run e with hrun | hrun <;> rw [hrun]
  exact h

theorem spares_lift_bind {k : α → Action β} {y : Except Failure α}
    (h : ∀ a, y = .ok a → Spares e (k a)) : Spares e (liftM y >>= k) := by
  cases y with
  | error f => exact rfl
  | ok a => exact h a rfl

theorem authorities_enter {st : Statement} :
    (e.enter t st).engine.store.authorities = e.store.authorities :=
  reflagged_enter.authorities.trans authorities_writeAll

theorem authorities_enterContext {st : Statement} {assumptions : List Statement} :
    (e.enterContext t st assumptions).engine.store.authorities = e.store.authorities :=
  reflagged_enterContext.authorities.trans authorities_writeAll

theorem spares_insertContext {owner : Option StatementId} {term : Term} {kind : ContextKind}
    {id : StatementId} {given : List StatementId} :
    Spares e (insertContext t owner term kind id (some given)) := by
  refine spares_get_bind (spares_lift_bind fun opened _ => spares_bind ?_ fun ids e' => ?_)
  · rw [assumptionIds]
    split <;> exact rfl
  · exact spares_get_bind (spares_await authorities_enterContext)

theorem spares_reserve {x : StatementId} : Spares e (reserve x) := by
  rw [Spares]
  rcases reserve_cases x e with hrun | ⟨a, -, hrun⟩ <;> rw [hrun]

theorem spares_reserveAll (l : List StatementId) : Spares e (l.forM reserve) := by
  induction l generalizing e with
  | nil => exact rfl
  | cons x rest ih =>
    exact spares_bind (k := fun _ => rest.forM reserve) spares_reserve fun _ _ => ih

theorem spares_rebuildDeleted {st : Statement} : Spares e (rebuildDeleted t st) := by
  rw [rebuildDeleted, Spares, perform_get_bind]
  dsimp only
  refine guard_cases (P := Spares e) _ (fun _ => rfl) fun _ => ?_
  refine spares_bind spares_reserve fun _ e' => ?_
  split
  · exact spares_get_bind <| spares_lift_bind fun _ _ =>
      spares_get_bind (spares_await authorities_enter)
  · exact spares_get_bind <| spares_lift_bind fun _ _ =>
      spares_get_bind (spares_await authorities_enter)
  · exact spares_lift_bind fun _ _ => spares_bind (spares_reserveAll _) fun _ _ =>
      spares_insertContext
  · exact rfl

theorem rebuildDeleted_plain {st : Statement} {u : Unit}
    (h : (rebuildDeleted t st).perform e = (.ok u, e')) : st.isAssumption = false := by
  rw [Statement.isAssumption]
  cases hkind : st.kind with
  | assumption i =>
    refine absurd h ?_
    rw [rebuildDeleted, perform_get_bind, hkind]
    dsimp only
    refine guard_cases (P := fun m => m.perform e ≠ (.ok u, e')) _ (fun f hthrow => ?_) fun _ => ?_
    · cases hthrow
    · rw [perform_bind]
      rcases reserve_cases st.id e with hrun | ⟨a, -, hrun⟩ <;> rw [hrun] <;> intro hthrow <;>
        cases hthrow
  | _ => rfl

/-- Rebuilding a batch leaves authorities alone, and lists statements of the batch. -/
theorem rebuildAll_restored (l : DeletionBatch) (state : RestoreReport × Engine) :
    (l.foldl (rebuildNext t) state).2.store.authorities = state.2.store.authorities ∧
      ∀ x ∈ (l.foldl (rebuildNext t) state).1.restored, x ∈ state.1.restored ∨
        ∃ d ∈ l, d.statement.id = x ∧ d.statement.isAssumption = false := by
  induction l generalizing state with
  | nil => exact ⟨rfl, fun x hx => Or.inl hx⟩
  | cons d rest ih =>
    have hone : (rebuildNext t state d).2.store.authorities = state.2.store.authorities ∧
        ∀ x ∈ (rebuildNext t state d).1.restored, x ∈ state.1.restored ∨
          d.statement.id = x ∧ d.statement.isAssumption = false := by
      have hspares : Spares state.2 (rebuildDeleted t d.statement) := spares_rebuildDeleted
      rw [Spares] at hspares
      rw [rebuildNext]
      cases hrun : (rebuildDeleted t d.statement).perform state.2 with
      | mk r e' =>
        rw [hrun] at hspares
        cases r with
        | error f => exact ⟨hspares, fun x hx => Or.inl hx⟩
        | ok u =>
          refine ⟨hspares, fun x hx => ?_⟩
          rcases List.mem_append.1 hx with hx | hx
          · exact Or.inl hx
          · exact Or.inr ⟨(List.mem_singleton.1 hx).symm, rebuildDeleted_plain hrun⟩
    obtain ⟨hsame, hlist⟩ := ih (rebuildNext t state d)
    refine ⟨hsame.trans hone.1, fun x hx => ?_⟩
    rcases hlist x hx with hx | ⟨d', hd', hspec⟩
    · exact (hone.2 x hx).imp_right fun hspec => ⟨d, List.mem_cons_self, hspec⟩
    · exact Or.inr ⟨d', List.mem_cons_of_mem _ hd', hspec⟩

theorem restoreNames_fields (l : List Statement) (state : RestoreReport × Engine) :
    (l.foldl (restoreNextName t) state).2.store.authorities = state.2.store.authorities ∧
      (l.foldl (restoreNextName t) state).1.restored = state.1.restored := by
  induction l generalizing state with
  | nil => exact ⟨rfl, rfl⟩
  | cons st rest ih =>
    have hone : (restoreNextName t state st).2.store.authorities = state.2.store.authorities ∧
        (restoreNextName t state st).1.restored = state.1.restored := by
      have hname (name : Identifier) :
          (state.2.restoreName t st.id name).2.store.authorities = state.2.store.authorities := by
        rw [restoreName]
        split
        · rfl
        · split
          · rfl
          · rw [store_put]
            rfl
      rw [restoreNextName]
      split
      · exact ⟨rfl, rfl⟩
      · dsimp only
        split
        · exact ⟨hname _, rfl⟩
        · exact ⟨hname _, rfl⟩
    obtain ⟨hsame, hlist⟩ := ih (restoreNextName t state st)
    exact ⟨hsame.trans hone.1, hlist.trans hone.2⟩

/-- The authorities of the statements that were rebuilt come back. -/
theorem authority?_restoreAll (kept : StatementId → Option Authority) (l : DeletionBatch)
    (hl : ∀ d ∈ l, d.authority = kept d.statement.id)
    (hkept : ∀ x a, kept x = some a → a.statement = x) (state : RestoreReport × Engine)
    (x : StatementId) :
    (l.foldl (restoreTrappings t) state).1.restored = state.1.restored ∧
      (l.foldl (restoreTrappings t) state).2.store.authority? x =
        if x ∈ state.1.restored ∧ x ∈ l.map (·.statement.id) then
          (kept x).or (state.2.store.authority? x)
        else state.2.store.authority? x := by
  induction l generalizing state with
  | nil => exact ⟨rfl, (if_neg fun h => List.not_mem_nil h.2).symm⟩
  | cons d rest ih =>
    obtain ⟨hd, hrest⟩ := List.forall_mem_cons.1 hl
    have hone : (restoreTrappings t state d).1.restored = state.1.restored ∧
        (restoreTrappings t state d).2.store.authority? x =
          if x ∈ state.1.restored ∧ x = d.statement.id then
            (kept x).or (state.2.store.authority? x)
          else state.2.store.authority? x := by
      obtain ⟨hsame, hlist⟩ := restoreNames_fields (t := t) (d.statement :: d.assumptions) state
      rw [restoreTrappings]
      split
      case isFalse hout =>
        refine ⟨rfl, (if_neg ?_).symm⟩
        rintro ⟨hx, rfl⟩
        exact hout hx
      case isTrue hin =>
        have hbefore : ((d.statement :: d.assumptions).foldl
            (restoreNextName t) state).2.store.authority?
            x = state.2.store.authority? x := congrArg (Table.get? · x) hsame
        dsimp only
        cases ha : d.authority with
        | none =>
          refine ⟨hlist, hbefore.trans ?_⟩
          split
          case isTrue hx =>
            rw [hx.2, ← hd, ha]
            rfl
          case isFalse => rfl
        | some a =>
          refine ⟨hlist, ?_⟩
          have hid : a.statement = d.statement.id := hkept _ a (hd.symm.trans ha)
          rw [store_notify, store_setAuthority, authority?_setAuthority, hid]
          by_cases hx : x = d.statement.id
          · rw [if_pos hx, if_pos ⟨hx ▸ hin, hx⟩, hx, ← hd, ha]
            rfl
          · rw [if_neg hx, if_neg fun h => hx h.2]
            exact hbefore
    obtain ⟨hlist, hauthority⟩ := ih hrest (restoreTrappings t state d)
    refine ⟨hlist.trans hone.1, ?_⟩
    rw [List.foldl_cons, hauthority, hone.1, hone.2]
    simp only [List.map_cons, List.mem_cons]
    cases hx : kept x <;> grind

theorem undelete_kept {rest : List DeletionBatch} {kept : StatementId → Option Authority}
    {report : RestoreReport} (hbatches : e.undo.batches = batch :: rest)
    (hbatch : ∀ d ∈ batch, d.authority = kept d.statement.id)
    (hkept : ∀ x a, kept x = some a → a.statement = x)
    (hrun : (undelete t).perform e = (.ok report, e')) :
    (∀ x ∈ report.restored, ∃ d ∈ batch, d.statement.id = x ∧ d.statement.isAssumption = false) ∧
      ∀ x, e.store.authority? x = none →
        e'.store.authority? x = if x ∈ report.restored then kept x else none := by
  obtain ⟨f, herror⟩ | ⟨-, b, bs, hbs, hdone⟩ := undelete_outcome t e
  · cases herror.symm.trans hrun
  cases hbs.symm.trans hbatches
  cases hdone.symm.trans hrun
  let e₁ : Engine := { e with undo := { e.undo with batches := rest } }
  obtain ⟨hsame, hlist⟩ := rebuildAll_restored (t := t) batch.reverse ({}, e₁)
  have hlist' (x : StatementId)
      (hx : x ∈ (batch.reverse.foldl (rebuildNext t) ({}, e₁)).1.restored) :
      ∃ d ∈ batch, d.statement.id = x ∧ d.statement.isAssumption = false := by
    rcases hlist x hx with hnil | ⟨d, hd, hspec⟩
    · cases hnil
    · exact ⟨d, List.mem_reverse.1 hd, hspec⟩
  have hback := authority?_restoreAll (t := t) kept batch.reverse
    (fun d hd => hbatch d (List.mem_reverse.1 hd)) hkept
    (batch.reverse.foldl (rebuildNext t) ({}, e₁))
  refine ⟨fun x hx => ?_, fun x hx => ?_⟩
  · rw [(hback x).1] at hx
    exact hlist' x hx
  · have hnone : (batch.reverse.foldl (rebuildNext t) ({}, e₁)).2.store.authority? x = none :=
      (congrArg (Table.get? · x) hsame).trans hx
    rw [store_onTransaction, (hback x).2, (hback x).1, hnone]
    by_cases hin : x ∈ (batch.reverse.foldl (rebuildNext t) ({}, e₁)).1.restored
    · obtain ⟨d, hd, hid, -⟩ := hlist' x hin
      rw [if_pos ⟨hin, List.mem_map.2 ⟨d, List.mem_reverse.2 hd, hid⟩⟩, if_pos hin, Option.or_none]
    · rw [if_neg fun h => hin h.1, if_neg hin]

end Engine

namespace Op

open Engine Store

variable {e e' : Engine} {op : Op} {t : TransactionId}

theorem fells_deletion (ho : e.Orderly) (hop : op.isDeletion = true) (hclient : op.client? = some t)
    (hrun : op.run e = (.ok (), e')) : ∃ batch e₁, Changes t e e₁ ∧ e₁.isOpen t = true ∧
      Stripped e batch e₁ ∧ e' = e₁.onTransaction t (·.addDeletions batch) := by
  have hfelled {m : Action (List StatementId)} (hfells : Fells t e m)
      (heffect : m.effect e = (.ok (), e')) : ∃ batch e₁, Changes t e e₁ ∧ e₁.isOpen t = true ∧
        Stripped e batch e₁ ∧ e' = e₁.onTransaction t (·.addDeletions batch) := by
    obtain ⟨removed, hperform⟩ := effect_eq_ok (congrArg Prod.fst heffect)
    rw [heffect] at hperform
    obtain ⟨e₀, batch, e₁, hstore, hchanges, hopen, hstripped, he⟩ := hfells removed e' hperform
    refine ⟨batch, e₁, hchanges, hopen, ⟨?_, ?_⟩, he⟩
    · rw [← hstore]
      exact hstripped.gone
    · rw [← hstore]
      exact hstripped.kept
  cases op with
  | removeStatements =>
    cases hclient
    exact hfelled (fells_removeStatements ho) hrun
  | removeCascade =>
    cases hclient
    exact hfelled (fells_removeCascade ho) hrun
  | removeRoot =>
    cases hclient
    exact hfelled (fells_removeRoot ho) hrun
  | _ => cases hop

end Op

namespace Engine

open Store

variable {S e₀ e₁ e₂ e₃ : Engine} {t t' : TransactionId} {x : StatementId} {st : Statement}

/-- In a sequential run a deletion that was committed can be undeleted. -/
theorem undelete_returns {op : Op} {timeout : Option Nat}
    (h : Reached (fun e op => op.Sequential e ∧ op.Faithful e) S) (hop : op.isDeletion = true)
    (hdelete : op.run S = (.ok (), e₁)) (hcommit : (Op.commit t).run e₁ = (.ok (), e₂))
    (hbegin : e₂.begin timeout = (t', e₃)) :
    ∃ report e₄, (undelete t').perform e₃ = (.ok report, e₄) := by
  obtain ⟨⟨H, hsession⟩, hcounter⟩ :=
    h.session_counter (fun _ _ hop => hop.1) (fun _ _ hop => hop.2.offers)
  have hnothing : Retraces H S.store [] S := ⟨awaits_nil hsession hcounter, fun _ => rfl⟩
  obtain ⟨batch, hdeleted, hundo⟩ := Op.retraces_deletion hnothing hop (congrArg Prod.fst hdelete)
  rw [hdelete] at hdeleted hundo
  have hdepth : [batch].length ≤ e₁.undo.depth := by
    rw [hundo]
    exact Nat.one_le_iff_ne_zero.2 hsession.deep
  obtain ⟨hcommitted, -, -⟩ := @Op.retraces_bracket H S.store e₁ [batch] (.commit t) hdeleted
    rfl trivial (congrArg Prod.fst hcommit) (Or.inl hdepth)
  obtain ⟨tx, htx, hclosed, heffect⟩ := commit_eq_ok (congrArg Prod.fst hcommit)
  have hidle (t₁ : TransactionId) : e₂.isOpen t₁ = false := by
    obtain rfl : _ = e₂ := heffect.symm.trans (congrArg Prod.snd hcommit)
    exact hdeleted.session.isOpen_commitWith htx hclosed t₁
  rw [hcommit] at hcommitted
  obtain ⟨hbegun, hquiet⟩ := hcommitted.toAwaits.begin hidle timeout
  have hopen := isOpen_begin (e := e₂) timeout
  rw [hbegin] at hbegun hquiet hopen
  have hback : Retraces H S.store [batch] e₃ := ⟨hbegun, by cases hbegin; exact hcommitted.back⟩
  obtain ⟨report, e₄, hrun, -⟩ := hback.undelete hquiet hopen
  exact ⟨report, e₄, hrun⟩

/-- A statement that is rebuilt has the authority it had; an assumption comes back without one. -/
theorem undelete_authority {config : Config} {ops : List Op} {op : Op} {timeout : Option Nat}
    (hstart : create config .absent = .ok e₀) (hS : Op.runAll e₀ ops = S)
    (hop : op.isDeletion = true) (hclient : op.client? = some t)
    (hdelete : op.run S = (.ok (), e₁)) (hcommit : (Op.commit t).run e₁ = (.ok (), e₂))
    (hbegin : e₂.begin timeout = (t', e₃)) (hx : S.store.get? x = some st)
    (hgone : e₁.store.get? x = none) :
    (Reached (fun e op => op.Sequential e ∧ op.Faithful e) S →
        ∃ report e₄, (undelete t').perform e₃ = (.ok report, e₄)) ∧
      ∀ report e₄, (undelete t').perform e₃ = (.ok report, e₄) →
        (x ∈ report.restored → st.isAssumption = false ∧
          e₄.store.authority? x = S.store.authority? x) ∧
        (x ∉ report.restored → e₄.store.authority? x = none) := by
  refine ⟨fun h => undelete_returns h hop hdelete hcommit hbegin, fun report e₄ hrun => ?_⟩
  have ho : S.Orderly := hS ▸ (orderly_create hstart).runAll ops
  obtain ⟨batch, e, hchanges, hopen, hstripped, rfl⟩ := Op.fells_deletion ho hop hclient hdelete
  have hstore : (e.onTransaction t (·.addDeletions batch)).store = e.store := store_onTransaction
  rw [hstore] at hgone
  obtain ⟨hne, hnone⟩ := hstripped.gone x st hx hgone
  obtain ⟨tx, htx, -, hcommitted⟩ := commit_eq_ok (congrArg Prod.fst hcommit)
  obtain rfl : _ = e₂ := hcommitted.symm.trans (congrArg Prod.snd hcommit)
  obtain ⟨hstore₂, hundo₂, -, -⟩ := commitWith_fields (e.onTransaction t (·.addDeletions batch)) tx
  -- the batch is the last that the commit enters, so the undo log has it on top
  obtain ⟨rest, hbatches⟩ : ∃ rest, e₃.undo.batches = batch :: rest := by
    obtain ⟨tx₀, htx₀, -⟩ := isOpen_iff.1 hopen
    rw [get?_onTransaction, if_pos rfl, htx₀, Option.map_some, Option.some.injEq] at htx
    have hdeletions : tx.deletions = tx₀.deletions ++ [batch] := by
      rw [← htx, Transaction.addDeletions, if_neg (List.isEmpty_iff.not.2 hne)]
    have hdepth : [batch].length ≤ (e.onTransaction t (·.addDeletions batch)).undo.depth := by
      rw [onTransaction_fields.1]
      exact Nat.one_le_iff_ne_zero.2 (ho.changes hchanges).deep
    have hnewest : [batch] <+: tx.deletions.reverse ++
        (e.onTransaction t (·.addDeletions batch)).undo.batches := by
      rw [hdeletions, List.reverse_append]
      exact ⟨_, rfl⟩
    obtain ⟨rest, hrest⟩ := UndoLog.prefix_pushAll _ tx.deletions hnewest hdepth
    cases hbegin
    exact ⟨rest, (congrArg UndoLog.batches hundo₂).trans hrest.symm⟩
  have hstore₃ : e₃.store = e.store := by
    cases hbegin
    exact hstore₂.trans hstore
  obtain ⟨hlist, hauthority⟩ := undelete_kept hbatches (fun d hd => (hstripped.kept d hd).2)
    ho.authority hrun
  have hafter := hauthority x (by rw [hstore₃]; exact hnone)
  refine ⟨fun hin => ?_, fun hout => hafter.trans (if_neg hout)⟩
  obtain ⟨d, hd, rfl, hplain⟩ := hlist x hin
  cases hx.symm.trans (hstripped.kept d hd).1
  exact ⟨hplain, hafter.trans (if_pos hin)⟩

end Engine

def endorsed : List Op :=
  [.begin none, .createRoot ⟨1⟩ (.function ⟨0⟩ (.atom "A") (.atom "B")),
    .createAuthority ⟨1⟩ (.after 0) "ann", .signAuthority ⟨1⟩ (.after 0),
    .createAuthority ⟨1⟩ (.after 1) "bob", .commit ⟨1⟩, .begin none]

theorem reached_endorsed : Reached (fun e op => op.Sequential e ∧ op.Faithful e)
    (Op.runAll (.inMemory {}) endorsed) :=
  reached_of_succeed (by decide +kernel)

theorem endorsed_root : ∃ report e₄,
    (Engine.undelete ⟨3⟩).perform (Op.runAll (.inMemory {})
        (endorsed ++ [.removeRoot ⟨2⟩ (.after 0), .commit ⟨2⟩, .begin none])) =
      (.ok report, e₄) ∧
      e₄.store.authority? (.after 0) = some (Authority.unsigned (.after 0) "ann").sign := by
  have hstart : Engine.create {} .absent = .ok (.inMemory {}) := rfl
  have hdelete : (Op.removeRoot ⟨2⟩ (.after 0)).run (Op.runAll (.inMemory {}) endorsed) =
      (.ok (), Op.runAll (.inMemory {}) (endorsed ++ [.removeRoot ⟨2⟩ (.after 0)])) :=
    Prod.ext (by decide +kernel) rfl
  have hcommit : (Op.commit ⟨2⟩).run (Op.runAll (.inMemory {})
      (endorsed ++ [.removeRoot ⟨2⟩ (.after 0)])) = (.ok (), Op.runAll (.inMemory {})
        (endorsed ++ [.removeRoot ⟨2⟩ (.after 0), .commit ⟨2⟩])) :=
    Prod.ext (by decide +kernel) rfl
  have hbegin : (Op.runAll (.inMemory {})
      (endorsed ++ [.removeRoot ⟨2⟩ (.after 0), .commit ⟨2⟩])).begin none = (⟨3⟩, Op.runAll
        (.inMemory {}) (endorsed ++ [.removeRoot ⟨2⟩ (.after 0), .commit ⟨2⟩, .begin none])) :=
    Prod.ext (by decide +kernel) rfl
  obtain ⟨st, hst⟩ : ∃ st, (Op.runAll (.inMemory {}) endorsed).store.get? (.after 0) = some st :=
    Option.isSome_iff_exists.1 (by decide +kernel)
  obtain ⟨hreturns, hback⟩ :=
    Engine.undelete_authority hstart rfl rfl rfl hdelete hcommit hbegin hst
    (Option.not_isSome_iff_eq_none.1 (by decide +kernel))
  obtain ⟨report, e₄, hrun⟩ := hreturns reached_endorsed
  have hlist : ((Engine.undelete ⟨3⟩).perform (Op.runAll (.inMemory {}) (endorsed ++
      [.removeRoot ⟨2⟩ (.after 0), .commit ⟨2⟩, .begin none]))).1.toOption.map (·.restored) =
        some [.after 0] := by decide +kernel
  rw [hrun] at hlist
  refine ⟨report, e₄, hrun, ?_⟩
  rw [((hback report e₄ hrun).1 ?_).2]
  · decide +kernel
  · have hrestored : report.restored = [.after 0] := Option.some.inj hlist
    rw [hrestored]
    exact List.mem_cons_self

theorem assumption_authority_lost :
    (Op.runAll (.inMemory {}) endorsed).store.authority? (.after 1) =
      some (Authority.unsigned (.after 1) "bob") ∧
    (Op.runAll (.inMemory {}) (endorsed ++ [.removeRoot ⟨2⟩ (.after 0), .commit ⟨2⟩, .begin none,
        .undelete ⟨3⟩])).store.contains (.after 1) = true ∧
    (Op.runAll (.inMemory {}) (endorsed ++ [.removeRoot ⟨2⟩ (.after 0), .commit ⟨2⟩, .begin none,
        .undelete ⟨3⟩])).store.authority? (.after 1) = none := by
  decide +kernel

end StatementGraph
