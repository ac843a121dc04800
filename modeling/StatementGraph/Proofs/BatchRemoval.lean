import StatementGraph.Proofs.CascadeClosure
import StatementGraph.Proofs.Lodging
import StatementGraph.Proofs.Refusal

namespace StatementGraph

def Statement.unflagged (st : Statement) : Statement := { st with proved := false }

namespace Store

variable {s s' : Store} {x : StatementId} {ids : List StatementId}

def InTrees (s : Store) (ids : List StatementId) (x : StatementId) : Prop :=
  ∃ top ∈ ids, s.graph.Within x top

theorem InTrees.live (h : s.InTrees ids x) (hids : ∀ top ∈ ids, ∃ st, s.get? top = some st) :
    ∃ st, s.get? x = some st := by
  obtain ⟨top, htop, hw⟩ := h
  rcases Relation.ReflTransGen.cases_head hw with rfl | ⟨o, ho, -⟩
  · exact hids x htop
  · obtain ⟨c, hc, -⟩ := Graph.ownerOf_eq.1 ho
    obtain ⟨st, hst, -⟩ := graph_eq_some.1 hc
    exact ⟨st, hst⟩

/-- One store is the other without some statements, but for the flags of what is left. -/
structure Minus (s : Store) (removed : List StatementId) (s' : Store) : Prop where
  statements : ∀ x, (s'.get? x).map Statement.unflagged =
    if x ∈ removed then none else (s.get? x).map Statement.unflagged
  authorities : ∀ x, s'.authority? x = if x ∈ removed then none else s.authority? x
  allocator : s'.allocator = s.allocator
  filed : s'.Filed

theorem Reflagged.unflagged (hr : s.Reflagged s') (hi : s.Indexed) (hi' : s'.Indexed)
    (x : StatementId) :
    (s'.get? x).map Statement.unflagged = (s.get? x).map Statement.unflagged := by
  have hgraph : (s'.get? x).map Statement.content = (s.get? x).map Statement.content :=
    congrFun hr.graph x
  have hname : (s'.get? x).bind Statement.identifier = (s.get? x).bind Statement.identifier :=
    hr.names x
  cases hx : s.get? x with
  | none =>
    rw [hx] at hgraph
    rw [Option.map_eq_none_iff.1 hgraph]
  | some st =>
    rw [hx] at hgraph hname
    obtain ⟨st', hst', hcontent⟩ := Option.map_eq_some_iff.1 hgraph
    rw [hst'] at hname ⊢
    have hid : st'.id = st.id := (hi'.keyed x st' hst').trans (hi.keyed x st hx).symm
    have hidentifier : st'.identifier = st.identifier := hname
    obtain ⟨howner, hterm, hdependencies, hkind⟩ := Content.mk.inj hcontent
    simp only [Option.map_some, Statement.unflagged, hid, howner, hterm, hdependencies, hidentifier,
      hkind]

end Store

namespace Removal

open Engine Store

variable {t : TransactionId} {r : Removal} {x y : StatementId} {st : Statement}
  {tops : List StatementId}

theorem get?_removeTrees (hi : r.engine.store.Indexed) (hh : r.engine.store.graph.Housed)
    (hplain : ∀ top ∈ tops, ∀ st, r.engine.store.get? top = some st → st.isAssumption = false) :
    (tops.foldl (removeTree t) r).engine.store.get? y = some st ↔
      r.engine.store.get? y = some st ∧ ∀ top ∈ tops, ¬r.engine.store.graph.Within y top := by
  induction tops generalizing r with
  | nil => simp
  | cons top rest ih =>
    have hleft (y : StatementId) (st : Statement) :
        (r.removeTree t top).engine.store.get? y = some st ↔
          r.engine.store.get? y = some st ∧ ¬r.engine.store.graph.Within y top :=
      get?_removeTree hi hh
    obtain ⟨htop, hrest⟩ := List.forall_mem_cons.1 hplain
    -- a later top may be inside this tree and gone by now, and then takes nothing out
    rw [List.foldl_cons, ih (indexed_removeTree hi) (housed_removeTree hi hh htop)
      fun x hx st hst => hrest x hx st ((hleft x st).1 hst).1]
    exact left_after_removeTree hh.owned.rooted hleft

theorem mem_removed_removeTrees {S : Engine} (hi : S.store.Indexed) (hh : S.store.graph.Housed)
    (htops : ∀ top ∈ tops, ∃ st, S.store.get? top = some st ∧ st.isAssumption = false) :
    x ∈ (tops.foldl (removeTree t) { engine := S }).removed ↔ S.store.InTrees tops x := by
  have hleft (st : Statement) :
      (tops.foldl (removeTree t) { engine := S }).engine.store.get? x = some st ↔
        S.store.get? x = some st ∧ ∀ top ∈ tops, ¬S.store.graph.Within x top := by
    refine get?_removeTrees hi hh fun top htop st' hst' => ?_
    obtain ⟨st, hst, hplain⟩ := htops top htop
    cases hst'.symm.trans hst
    exact hplain
  rw [((accounts_start hi).runs (runs_removeTrees _ tops)).mem_removed]
  constructor
  · rintro ⟨⟨st, hst⟩, hgone⟩
    by_contra hout
    cases hgone.symm.trans ((hleft st).2 ⟨hst, fun top htop hw => hout ⟨top, htop, hw⟩⟩)
  · intro hin
    refine ⟨hin.live fun top htop => (htops top htop).imp fun _ => And.left, ?_⟩
    obtain ⟨top, htop, hw⟩ := hin
    refine Option.eq_none_iff_forall_ne_some.2 fun st hst => ?_
    exact ((hleft st).1 hst).2 top htop hw

theorem Accounts.get?_eq {s : Store} (h : Accounts s r) :
    r.engine.store.get? x = if x ∈ r.removed then none else s.get? x := by
  split
  case isTrue hx => exact (h.mem_removed.1 hx).2
  case isFalse hx =>
    cases hlive : r.engine.store.get? x with
    | some st => exact (h.kept x st hlive).symm
    | none =>
      refine (Option.eq_none_iff_forall_ne_some.2 fun st hst => hx ?_).symm
      exact h.mem_removed.2 ⟨⟨st, hst⟩, hlive⟩

theorem Withdraws.authority?_eq {S : Engine} (h : Withdraws t S r) (ha : Accounts S.store r)
    (hlive : ∀ x a, S.store.authority? x = some a → ∃ c, S.store.graph x = some c) :
    r.engine.store.authority? x = if x ∈ r.removed then none else S.store.authority? x := by
  split
  case isTrue hx =>
    obtain ⟨⟨st, hst⟩, hgone⟩ := ha.mem_removed.1 hx
    exact h.strips.gone x st hst hgone
  case isFalse hx =>
    cases hst : S.store.get? x with
    | some st =>
      have hkept : r.engine.store.get? x = some st := by rw [ha.get?_eq, if_neg hx, hst]
      exact (h.strips.left x st hkept).2
    | none =>
      have hnone : S.store.authority? x = none := by
        refine Option.eq_none_iff_forall_ne_some.2 fun a hxa => ?_
        obtain ⟨c, hc⟩ := hlive x a hxa
        obtain ⟨st, hst', -⟩ := graph_eq_some.1 hc
        cases hst.symm.trans hst'
      rw [hnone]
      refine Option.eq_none_iff_forall_ne_some.2 fun a hxa => ?_
      cases hnone.symm.trans (h.authority x a hxa)

theorem minus_recheck {S : Engine} (h : Withdraws t S r) (ha : Accounts S.store r)
    (hlive : ∀ x a, S.store.authority? x = some a → ∃ c, S.store.graph x = some c)
    (hfiled : ((r.recheck t).record t).store.Filed) :
    S.store.Minus r.removed ((r.recheck t).record t).store := by
  have hr : r.engine.store.Reflagged (r.recheck t).engine.store := reflagged_recheck h.indexed
  have hstore : ((r.recheck t).record t).store = (r.recheck t).engine.store := store_onTransaction
  rw [hstore] at hfiled ⊢
  refine ⟨fun x => ?_, fun x => ?_, hr.allocator.trans h.allocator, hfiled⟩
  · rw [hr.unflagged h.indexed hfiled.indexed, ha.get?_eq]
    split <;> rfl
  · rw [authority?, hr.authorities]
    exact h.authority?_eq ha hlive

end Removal

namespace Engine

open Store Removal

variable {t : TransactionId} {e : Engine} {context : StatementId} {ids : List StatementId}

/-- What removing statements of a context asks for before it takes locks. -/
structure Admits (e : Engine) (t : TransactionId) (c : StatementId) (ids : List StatementId) :
    Prop where
  isOpen : e.isOpen t = true
  context : ∃ st, e.store.get? c = some st ∧ st.isContext = true
  own : ∀ x ∈ ids, ∃ st, e.store.get? x = some st ∧ st.isAssumption = false ∧
    st.owner = some c
  free : ∀ y st, e.store.get? y = some st → ¬e.store.InTrees ids y →
    ∀ d ∈ st.dependencies, ¬e.store.InTrees ids d

def Unlocked (e : Engine) (t : TransactionId) (ids : List StatementId) : Prop :=
  ∀ x, e.store.InTrees ids x → ∀ t', e.locks.owner? x = some t' → t' = t

/-- The checks come before the locks. -/
theorem removeStatements_cases (t : TransactionId) (context : StatementId)
    (ids : List StatementId) (hi : e.store.Indexed) (ho : e.store.graph.Owned) :
    (¬e.Admits t context ids ∧
        ∃ f, (removeStatements t context ids).perform e = (.error f, e)) ∨
      e.Admits t context ids ∧ ∃ removal : IdSet, (∀ x, x ∈ removal ↔ e.store.InTrees ids x) ∧
        (removeStatements t context ids).perform e =
          (lockAll t removal >>= fun _ => carryOut t fun r =>
            ((e.store.dependencySorted ids false).reverse.foldl (removeTree t) r).recheck t).perform
              e := by
  cases hopen : e.isOpen t with
  | false =>
    rw [removeStatements, perform_closed hopen]
    refine Or.inl ⟨fun h => ?_, _, rfl⟩
    rw [h.isOpen] at hopen
    cases hopen
  | true =>
    rw [removeStatements, perform_bind, perform_ensureOpen hopen]
    dsimp only
    rw [perform_get_bind]
    cases hcontext : e.store.requireContext context with
    | error f =>
      refine Or.inl ⟨fun h => ?_, f, rfl⟩
      obtain ⟨st, hst⟩ := h.context
      cases hcontext.symm.trans (requireContext_eq_ok.2 hst)
    | ok sc =>
      rw [perform_ok_bind]
      cases hremoval : e.store.removalOf context ids with
      | error f =>
        refine Or.inl ⟨fun h => ?_, f, rfl⟩
        obtain ⟨removal, hok⟩ := removalOf_of_own h.own
        cases hremoval.symm.trans hok
      | ok removal =>
        have hmem (x : StatementId) : x ∈ removal ↔ e.store.InTrees ids x :=
          mem_removalOf hi ho hremoval
        rw [perform_ok_bind]
        cases hblocking : (e.store.outsideDependents removal).isEmpty with
        | false =>
          refine Or.inl ⟨fun h => ?_, _, rfl⟩
          rw [← Bool.not_eq_true, IdSet.isEmpty_iff, not_forall_not] at hblocking
          obtain ⟨y, hy⟩ := hblocking
          obtain ⟨⟨d, hin, c, hc, hd⟩, hout⟩ := (mem_outsideDependents hi).1 hy
          obtain ⟨st, hst, rfl⟩ := graph_eq_some.1 hc
          exact h.free y st hst (mt (hmem y).2 hout) d hd ((hmem d).1 hin)
        | true =>
          refine Or.inr ⟨⟨hopen, ⟨sc, requireContext_eq_ok.1 hcontext⟩,
            (removalOf_eq_ok hremoval).1, fun y st hst hout d hd hin => ?_⟩, removal, hmem, rfl⟩
          rw [← hmem] at hout hin
          exact IdSet.isEmpty_iff.1 hblocking y
            ((mem_outsideDependents hi).2 ⟨⟨d, hin, st.content, graph_of_get? hst, hd⟩, hout⟩)

theorem lockAll_ok_iff {removal : IdSet} (hopen : e.isOpen t = true)
    (hmem : ∀ x, x ∈ removal ↔ e.store.InTrees ids x) :
    (∃ e', (lockAll t removal).perform e = (.ok (), e')) ↔ e.Unlocked t ids := by
  have hlocks := forM_lock_ok_iff (l := removal.toList) hopen
  simp only [IdSet.mem_toList, hmem] at hlocks
  exact hlocks

theorem removeStatements_outcome (t : TransactionId) (context : StatementId)
    (ids : List StatementId) (hi : e.store.Indexed) (ho : e.store.graph.Owned) :
    (¬(e.Admits t context ids ∧ e.Unlocked t ids) ∧ ∃ f e', Locks t e e' ∧
        (removeStatements t context ids).perform e = (.error f, e')) ∨
      (e.Admits t context ids ∧ e.Unlocked t ids) ∧ ∃ (removal : IdSet) (S : Engine) (r : Removal),
        (lockAll t removal).perform e = (.ok (), S) ∧
        r = (e.store.dependencySorted ids false).reverse.foldl (removeTree t) { engine := S } ∧
        (removeStatements t context ids).perform e = (.ok r.removed, (r.recheck t).record t) := by
  rcases removeStatements_cases t context ids hi ho with
    ⟨hnot, f, hrun⟩ | ⟨hadmits, removal, hmem, hrun⟩
  · exact Or.inl ⟨fun h => hnot h.1, f, e, refl_of (Locks t) e, hrun⟩
  · have hunlocked := lockAll_ok_iff hadmits.isOpen hmem
    have hlocks : Within (Locks t) e (lockAll t removal) := within_forM fun _ _ _ => locks_lock
    rw [Within] at hlocks
    rw [perform_bind] at hrun
    cases hlock : (lockAll t removal).perform e with
    | mk answer S =>
      rw [hlock] at hlocks hrun
      cases answer with
      | error f =>
        refine Or.inl ⟨fun h => ?_, f, S, hlocks, hrun⟩
        obtain ⟨S', hS'⟩ := hunlocked.2 h.2
        cases hlock.symm.trans hS'
      | ok u =>
        refine Or.inr ⟨⟨hadmits, hunlocked.1 ⟨S, hlock⟩⟩, removal, S, _, hlock, rfl, ?_⟩
        rw [hrun]
        dsimp only
        rw [perform_carryOut, removed, recheck_fields.2, removed]

/-- Once the locks are there, the trees are taken out. -/
theorem Lodged.removeTrees {S : Engine} {removal : IdSet} {r : Removal} (h : e.Lodged)
    (hadmits : e.Admits t context ids) (hlock : (lockAll t removal).perform e = (.ok (), S))
    (hr : r = (e.store.dependencySorted ids false).reverse.foldl (removeTree t) { engine := S })
    (hfiled : ((r.recheck t).record t).store.Filed) :
    r.removed.Nodup ∧ (∀ x, x ∈ r.removed ↔ e.store.InTrees ids x) ∧
      e.store.Minus r.removed ((r.recheck t).record t).store := by
  have hstore : S.store = e.store := store_lockAll hlock
  have hS : S.Orderly := by
    have hmoves : Moves t e (lockAll t removal) := moves_lockAll
    have hchanges := hmoves h.orderly
    rw [hlock] at hchanges
    exact h.orderly.changes hchanges
  obtain ⟨⟨l, hl⟩, howned⟩ := h.resting
  have hmem (x : StatementId) : x ∈ (e.store.dependencySorted ids false).reverse ↔ x ∈ ids :=
    mem_reverse_dependencySorted
  have ha : Accounts S.store r := by
    rw [hr]
    exact (accounts_start hS.filed.indexed).runs (runs_removeTrees _ _)
  have hw : Vacates t S r := by
    rw [hr]
    refine (vacates_start hS (by rw [hstore]; exact hl.paired)).removeTrees hS fun top htop => ?_
    obtain ⟨st, hst, hplain, -⟩ := hadmits.own top ((hmem top).1 htop)
    exact plain_of_get? hstore hst hplain
  rw [← hstore]
  refine ⟨ha.once, fun x => ?_, minus_recheck hw.toWithdraws ha ?_ hfiled⟩
  · rw [hr, mem_removed_removeTrees hS.filed.indexed (by rw [hstore]; exact h.housed)]
    · simp only [InTrees, hmem]
    · intro top htop
      obtain ⟨st, hst, hplain, -⟩ := hadmits.own top ((hmem top).1 htop)
      exact ⟨st, by rw [hstore]; exact hst, hplain⟩
  · rw [hstore]
    exact hl.live

end Engine

/-- Removing statements of a context takes their trees and nothing else, or fails and takes none. -/
theorem Reached.removal_exact {e : Engine} (h : Reached (fun e op => (op.run e).2.SoleWriter) e)
    (t : TransactionId) (context : StatementId) (ids : List StatementId) :
    ((∃ removed e', (Engine.removeStatements t context ids).perform e = (.ok removed, e')) ↔
        e.Admits t context ids ∧ e.Unlocked t ids) ∧
      (∀ removed e', (Engine.removeStatements t context ids).perform e = (.ok removed, e') →
        removed.Nodup ∧ (∀ x, x ∈ removed ↔ e.store.InTrees ids x) ∧
          e.store.Minus removed e'.store) ∧
      ∀ f e', (Engine.removeStatements t context ids).perform e = (.error f, e') →
        e'.store = e.store ∧ e'.undo = e.undo ∧ Engine.Refused t e e' := by
  have hl := h.lodged
  have hfiled : ((Engine.removeStatements t context ids).perform e).2.store.Filed :=
    (hl.orderly.run (.removeStatements t context ids)).filed
  have hi := hl.orderly.filed.indexed
  rcases Engine.removeStatements_outcome t context ids hi hl.resting.owned with
    ⟨hnot, f, S, hlocks, hrun⟩ | ⟨hyes, removal, S, r, hlock, hr, hrun⟩
  · refine ⟨⟨?_, fun hyes => absurd hyes hnot⟩, ?_, ?_⟩
    · rintro ⟨removed, e', hok⟩
      cases hrun.symm.trans hok
    · intro removed e' hok
      cases hrun.symm.trans hok
    · intro f' e' hfail
      have hrefused := Engine.refuses_removeStatements f' e' hfail
      cases hrun.symm.trans hfail
      exact ⟨hlocks.store, hlocks.evolves.undo, hrefused⟩
  · refine ⟨⟨fun _ => hyes, fun _ => ⟨_, _, hrun⟩⟩, ?_, ?_⟩
    · intro removed e' hok
      rw [hrun] at hfiled
      cases hrun.symm.trans hok
      exact hl.removeTrees hyes.1 hlock hr hfiled
    · intro f' e' hfail
      cases hrun.symm.trans hfail

/-- A root that an idle transaction has locked, with two statements that hold each other. -/
def heldRoot : List Op :=
  [.begin none, .createRoot ⟨1⟩ (.atom "A"),
    .openNested ⟨1⟩ (.after 0) (.function ⟨0⟩ (.atom "A") (.atom "B")),
    .declare ⟨1⟩ (.after 0) (.var (.after 1) (.function ⟨0⟩ (.atom "A") (.atom "B"))),
    .commit ⟨1⟩, .begin (some 0), .lock ⟨2⟩ (.after 0), .begin (some 0)]

theorem heldRoot_removal :
    let e := Op.runAll (.inMemory {}) heldRoot
    let ids := [StatementId.after 1, .after 3, .after 1]
    e.locks.owner? (.after 0) = some ⟨2⟩ ∧
      (∃ removed e', (Engine.removeStatements ⟨3⟩ (.after 0) ids).perform e = (.ok removed, e') ∧
        removed = [.after 3, .after 2, .after 1] ∧ (∀ x, x ∈ removed ↔ e.store.InTrees ids x) ∧
        e.store.Minus removed e'.store) ∧
      ¬(e.Admits ⟨3⟩ (.after 0) [.after 1] ∧ e.Unlocked ⟨3⟩ [.after 1]) := by
  intro e ids
  have hstart : Reached (fun e op => (op.run e).2.SoleWriter) (.inMemory {}) :=
    @Reached.start _ {} _ rfl
  have hreached : Reached (fun e op => (op.run e).2.SoleWriter) e :=
    hstart.runAll heldRoot (by decide +kernel)
  have hremoved : ((Engine.removeStatements ⟨3⟩ (.after 0) ids).perform e).1.toOption =
      some [.after 3, .after 2, .after 1] := by
    decide +kernel
  have hblocked : ((Engine.removeStatements ⟨3⟩ (.after 0) [.after 1]).perform e).1.toOption =
      none := by
    decide +kernel
  refine ⟨by decide +kernel, ?_, fun hyes => ?_⟩
  · obtain ⟨-, hcleared, -⟩ := Reached.removal_exact hreached ⟨3⟩ (.after 0) ids
    cases hrun : (Engine.removeStatements ⟨3⟩ (.after 0) ids).perform e with
    | mk answer e' =>
      rw [hrun] at hremoved
      cases answer with
      | error f => cases hremoved
      | ok removed =>
        obtain ⟨-, htrees, hminus⟩ := hcleared removed e' hrun
        exact ⟨removed, e', rfl, Option.some.inj hremoved, htrees, hminus⟩
  · obtain ⟨hiff, -, -⟩ := Reached.removal_exact hreached ⟨3⟩ (.after 0) [.after 1]
    obtain ⟨removed, e', hrun⟩ := hiff.2 hyes
    rw [hrun] at hblocked
    cases hblocked

end StatementGraph
