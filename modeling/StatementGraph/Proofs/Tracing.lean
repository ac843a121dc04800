import Mathlib.Data.List.Induction
import StatementGraph.Proofs.OneSided
import StatementGraph.Proofs.Precedence
import StatementGraph.Trace

namespace StatementGraph

def Lightest (l : List Statement) (st : Statement) : Prop :=
  ∃ earlier later, l = earlier ++ st :: later ∧ (∀ other ∈ earlier, st.weight < other.weight) ∧
    ∀ other ∈ later, st.weight ≤ other.weight

theorem Lightest.weight_le {l : List Statement} {st other : Statement} (h : Lightest l st)
    (hother : other ∈ l) : st.weight ≤ other.weight := by
  obtain ⟨earlier, later, rfl, hearlier, hlater⟩ := h
  rcases List.mem_append.1 hother with hother | hother
  · exact Nat.le_of_lt (hearlier other hother)
  · rcases List.mem_cons.1 hother with rfl | hother
    · exact Nat.le_refl _
    · exact hlater other hother

theorem Lightest.unique {l : List Statement} {st st' : Statement} (h : Lightest l st)
    (h' : Lightest l st') : st = st' := by
  obtain ⟨earlier, later, rfl, hearlier, -⟩ := id h
  obtain ⟨earlier', later', hl, hearlier', -⟩ := id h'
  -- the one that stands further to the left would be heavier than the other
  rcases List.append_eq_append_iff.1 hl with ⟨mid, hmid, hrest⟩ | ⟨mid, hmid, hrest⟩
  · cases mid with
    | nil => exact (List.cons.inj hrest).1
    | cons first mid =>
      obtain ⟨rfl, rfl⟩ := List.cons.inj hrest
      have hlt := hearlier' st (by simp [hmid])
      exact absurd (h.weight_le (by simp)) (Nat.not_le.2 hlt)
  · cases mid with
    | nil => exact (List.cons.inj hrest).1.symm
    | cons first mid =>
      obtain ⟨rfl, rfl⟩ := List.cons.inj hrest
      have hlt := hearlier st' (by simp [hmid])
      exact absurd (h'.weight_le (by simp [hmid])) (Nat.not_le.2 hlt)

namespace Store

variable {s : Store} {x y m d : StatementId} {st : Statement}

/-- Taking the lighter of two, from the first to the last, ends with the first of the lightest. -/
theorem lightest_foldl {l : List Statement} (h : l ≠ []) :
    ∃ st, l.foldl lighter none = some st ∧ Lightest l st := by
  induction l using List.reverseRecOn with
  | nil => exact absurd rfl h
  | append_singleton l last ih =>
    rw [List.foldl_append]
    by_cases hl : l = []
    · subst hl
      exact ⟨last, rfl, [], [], rfl, by simp, by simp⟩
    · obtain ⟨best, hbest, hlightest⟩ := ih hl
      rw [hbest, List.foldl_cons, List.foldl_nil, lighter]
      split
      case isTrue hlt =>
        refine ⟨last, rfl, l, [], rfl, fun other hother => ?_, by simp⟩
        exact Nat.lt_of_lt_of_le hlt (hlightest.weight_le hother)
      case isFalse hge =>
        obtain ⟨earlier, later, rfl, hearlier, hlater⟩ := hlightest
        refine ⟨best, rfl, earlier, later ++ [last], by simp, hearlier, fun other hother => ?_⟩
        rcases List.mem_append.1 hother with hother | hother
        · exact hlater other hother
        · rw [List.mem_singleton.1 hother]
          exact Nat.le_of_not_lt hge

theorem foldl_lighter_eq_some {l : List Statement} :
    l.foldl lighter none = some st ↔ Lightest l st := by
  by_cases hl : l = []
  · subst hl
    simp [Lightest]
  · obtain ⟨best, hbest, hlightest⟩ := lightest_foldl hl
    rw [hbest, Option.some.injEq]
    constructor
    · rintro rfl
      exact hlightest
    · exact hlightest.unique

/-- A statement is the preferred solver of a context: the first of the lightest that are proved. -/
def Prefers (s : Store) (context d : StatementId) : Prop :=
  ∃ found sd, s.solvers context = .ok found ∧ sd.id = d ∧
    Lightest ((found.filterMap s.get?).filter Statement.proved) sd

def Grounds (s : Store) (m d : StatementId) : Prop :=
  (∃ st, s.get? m = some st ∧ d ∈ st.dependencies) ∨ s.Prefers m d

/-- The proof of a statement rests directly on what its inside rests on, outside the statement. -/
def RestsOn (s : Store) (x d : StatementId) : Prop :=
  ¬s.graph.Within d x ∧ ∃ m, s.graph.Within m x ∧ s.Grounds m d

theorem preferredSolver_eq (hst : s.get? m = some st) (hctx : st.isContext = true) :
    ∃ solver, s.preferredSolver m = .ok solver ∧ ∀ d, solver = some d ↔ s.Prefers m d := by
  have hsolvers : s.solvers m = .ok (s.solversFor m (st.consequent?.getD .tau)) := by
    rw [solvers, requireContext_eq_ok.2 ⟨hst, hctx⟩]
    rfl
  rw [preferredSolver, hsolvers]
  refine ⟨_, rfl, fun d => ?_⟩
  rw [Option.map_eq_some_iff]
  simp only [foldl_lighter_eq_some, Prefers, hsolvers, Except.ok.injEq]
  constructor
  · rintro ⟨sd, hsd, rfl⟩
    exact ⟨_, sd, rfl, rfl, hsd⟩
  · rintro ⟨found, sd, rfl, rfl, hsd⟩
    exact ⟨sd, hsd, rfl⟩

theorem isContext_of_prefers (h : s.Prefers m d) :
    ∃ st, s.get? m = some st ∧ st.isContext = true := by
  obtain ⟨found, -, hfound, -⟩ := h
  rw [solvers, bind_eq_ok] at hfound
  obtain ⟨st, hst, -⟩ := hfound
  exact ⟨st, requireContext_eq_ok.1 hst⟩

theorem groundsOf_eq (s : Store) (m : StatementId) :
    ∃ found, s.groundsOf m = .ok found ∧ ∀ d, d ∈ found ↔ s.Grounds m d := by
  cases hst : s.get? m with
  | none =>
    refine ⟨[], by rw [groundsOf, hst], fun d => ?_⟩
    constructor
    · intro hd
      cases hd
    · rintro (⟨st, hst', -⟩ | hprefers)
      · cases hst.symm.trans hst'
      · obtain ⟨st, hst', -⟩ := isContext_of_prefers hprefers
        cases hst.symm.trans hst'
  | some st =>
    rw [groundsOf, hst]
    dsimp only
    cases hctx : st.isContext with
    | true =>
      obtain ⟨solver, hsolver, hprefers⟩ := preferredSolver_eq hst hctx
      rw [if_pos rfl, hsolver]
      refine ⟨_, rfl, fun d => ?_⟩
      simp [Grounds, hst, ← hprefers]
    | false =>
      refine ⟨_, rfl, fun d => ?_⟩
      have hno : ¬s.Prefers m d := by
        intro hprefers
        obtain ⟨st', hst', hctx'⟩ := isContext_of_prefers hprefers
        cases hst.symm.trans hst'
        cases hctx.symm.trans hctx'
      simp [Grounds, hst, hno]

section Indexed

variable (hi : s.Indexed) (ho : s.graph.Owned)

include hi in
theorem Grounds.mentioned (h : s.Grounds m d) : d ∈ s.mentioned := by
  rcases h with ⟨st, hst, hd⟩ | ⟨found, sd, -, rfl, earlier, later, hl, -⟩
  · refine List.mem_flatMap.2 ⟨st, Table.mem_values.2 ⟨m, hst⟩, ?_⟩
    simp [hd]
  · have hmem : sd ∈ (found.filterMap s.get?).filter Statement.proved := by simp [hl]
    obtain ⟨y, -, hy⟩ := List.mem_filterMap.1 (List.mem_filter.1 hmem).1
    rw [hi.keyed y sd hy]
    exact mem_mentioned hi hy

include hi ho

theorem proofDependencies_eq (hst : s.get? x = some st) :
    ∃ found, s.proofDependencies x = .ok found ∧ ∀ d, d ∈ found ↔ s.RestsOn x d := by
  have hgrounds (m : StatementId) (_ : m ∈ (s.membersOf st).toList) :
      ∃ found, s.groundsOf m = .ok found := by
    obtain ⟨found, hfound, -⟩ := groundsOf_eq s m
    exact ⟨found, hfound⟩
  obtain ⟨grounds, hrun, hmem⟩ := mapM_ok hgrounds
  refine ⟨IdSet.ofList (grounds.flatten.filter (· ∉ s.membersOf st)), ?_, fun d => ?_⟩
  · rw [proofDependencies, bind_eq_ok]
    exact ⟨st, require_eq_ok.2 hst, bind_eq_ok.2 ⟨grounds, hrun, rfl⟩⟩
  · rw [IdSet.mem_ofList, List.mem_filter, List.mem_flatten, decide_eq_true_iff,
      mem_membersOf hi ho hst, and_comm]
    refine and_congr_right fun _ => ?_
    constructor
    · rintro ⟨found, hfound, hd⟩
      obtain ⟨m, hm, hgrounds⟩ := (hmem found).1 hfound
      obtain ⟨found', hfound', hiff⟩ := groundsOf_eq s m
      cases hgrounds.symm.trans hfound'
      exact ⟨m, (mem_membersOf hi ho hst).1 hm, (hiff d).1 hd⟩
    · rintro ⟨m, hm, hd⟩
      obtain ⟨found, hfound, hiff⟩ := groundsOf_eq s m
      exact ⟨found, (hmem found).2 ⟨m, (mem_membersOf hi ho hst).2 hm, hfound⟩, (hiff d).2 hd⟩

theorem mem_restsOn : d ∈ s.restsOn x ↔ s.RestsOn x d := by
  cases hst : s.get? x with
  | some st =>
    obtain ⟨found, hfound, hmem⟩ := proofDependencies_eq hi ho hst
    rw [restsOn, hfound]
    exact hmem d
  | none =>
    have hdead : s.proofDependencies x = .error (.structural (.notFound x.raw)) := by
      rw [proofDependencies, require, hst]
      rfl
    rw [restsOn, hdead]
    apply iff_of_false List.not_mem_nil
    -- nothing is inside a statement that is not there
    rintro ⟨-, m, hm, hgrounds⟩
    obtain rfl : m = x := by
      rcases Relation.ReflTransGen.cases_tail hm with rfl | ⟨z, -, hz⟩
      · rfl
      · obtain ⟨c, -, hc, -⟩ := ho.owner hz
        obtain ⟨st, hst', -⟩ := graph_eq_some.1 hc
        cases hst.symm.trans hst'
    rcases hgrounds with ⟨st, hst', -⟩ | hprefers
    · cases hst.symm.trans hst'
    · obtain ⟨st, hst', -⟩ := isContext_of_prefers hprefers
      cases hst.symm.trans hst'

theorem mem_reach_restsOn : y ∈ Walk.reach s.restsOn (s.mentioned.length + 1) [x] ↔
    Relation.ReflTransGen s.RestsOn x y := by
  have hnext : ∀ a, ∀ b ∈ s.restsOn a, b ∈ s.mentioned := by
    intro a b hb
    obtain ⟨-, m, -, hgrounds⟩ := (mem_restsOn hi ho).1 hb
    exact hgrounds.mentioned hi
  rw [Walk.mem_reach hnext (Nat.le_refl (s.mentioned.length + 1))]
  simp only [mem_restsOn hi ho, List.mem_singleton, exists_eq_left]

theorem trace_eq (hst : s.get? x = some st) : ∃ ids : List StatementId,
    s.trace x = .ok ((s.dependencySorted ids false).filter (· ≠ x) ++ [x]) ∧
      ((s.dependencySorted ids false).filter (· ≠ x) ++ [x]).Nodup ∧
      ∀ y, y ∈ (s.dependencySorted ids false).filter (· ≠ x) ++ [x] ↔
        Relation.ReflTransGen s.RestsOn x y := by
  let closure := IdSet.ofList (Walk.reach s.restsOn (s.mentioned.length + 1) [x])
  have hclosure (y : StatementId) :
      y ∈ closure.toList ↔ Relation.ReflTransGen s.RestsOn x y := by
    rw [IdSet.mem_toList, IdSet.mem_ofList, mem_reach_restsOn hi ho]
  have hrun :
      s.trace x = .ok ((s.dependencySorted closure.toList false).filter (· ≠ x) ++ [x]) := by
    rw [trace, require_eq_ok.2 hst]
    rfl
  refine ⟨closure.toList, hrun, ?_, fun y => ?_⟩
  · apply List.nodup_append.2
    refine ⟨nodup_dependencySorted.filter _, List.nodup_singleton x, fun y hy z hz => ?_⟩
    rw [List.mem_singleton.1 hz]
    exact of_decide_eq_true (List.mem_filter.1 hy).2
  · rw [List.mem_append, List.mem_filter, mem_dependencySorted, hclosure, List.mem_singleton]
    by_cases hyx : y = x
    · simp [hyx, Relation.ReflTransGen.refl]
    · simp [hyx]

end Indexed

end Store

/-- A trace lists all that a proof rests on, each statement after what it depends on. -/
theorem Reached.trace_closure {e : Engine} {x : StatementId}
    (h : Reached (fun e op => op.Sequential e ∧ op.Faithful e) e)
    (hx : e.store.contains x = true) :
    (∃ earlier, e.store.trace x = .ok (earlier ++ [x]) ∧ (earlier ++ [x]).Nodup ∧
      (∀ y, y ∈ earlier ++ [x] ↔ Relation.ReflTransGen e.store.RestsOn x y) ∧
      ∀ y ∈ earlier, ∀ sy, e.store.get? y = some sy →
        ∀ d ∈ earlier, d ∈ sy.dependencies → [d, y].Sublist earlier) ∧
    (∀ y, e.store.contains y = true → ∃ found, e.store.proofDependencies y = .ok found ∧
      ∀ d, d ∈ found ↔ e.store.RestsOn y d) ∧
    ∀ m sm, e.store.get? m = some sm → sm.isContext = true →
      ∃ solver, e.store.preferredSolver m = .ok solver ∧
        ∀ d, solver = some d ↔ e.store.Prefers m d := by
  obtain ⟨H, hsession⟩ := h.session (fun _ _ hop => hop.1) (fun _ _ hop => hop.2.offers)
  have hm := hsession.maintained
  have hi := hm.indexed
  have ho := (hm.forest hsession.lawful).owned
  refine ⟨?_, fun y hy => ?_, fun m sm hsm hctx => Store.preferredSolver_eq hsm hctx⟩
  · obtain ⟨st, hst⟩ := Table.contains_iff.1 hx
    obtain ⟨ids, htrace, hnodup, hmem⟩ := Store.trace_eq hi ho hst
    refine ⟨_, htrace, hnodup, hmem, fun y hy sy hsy d hd hdep => ?_⟩
    have harranged : Walk.Arranged (e.store.predecessors ids false)
        (e.store.dependencySorted ids false) :=
      Store.arranged_dependencySorted hsession.lawful hm.sub hm.closed.owner
    have hlaws := hsession.lawful y _ (hm.sub y _ (Store.graph_of_get? hsy))
    have hne : d ≠ y := fun heq => Nat.lt_irrefl _ (heq ▸ (hlaws.dependency d hdep).1)
    have hlisted : d ∈ ids := Store.mem_dependencySorted.1 (List.mem_filter.1 hd).1
    have hbefore : d ∈ e.store.predecessors ids false y :=
      (Store.mem_predecessors hsy).2 ⟨hlisted, Or.inl ⟨hdep, hne⟩⟩
    exact harranged.pair_sublist hbefore hne hd hy
  · obtain ⟨sy, hsy⟩ := Table.contains_iff.1 hy
    exact Store.proofDependencies_eq hi ho hsy

theorem idleRing_traced :
    let s := (ringProof.run (Op.runAll (.inMemory {}) idleRing)).2.store
    s.contains (.after 5) = true ∧
      (s.trace (.after 5)).toOption = some ([3, 4, 6, 7, 5].map StatementId.after) ∧
      ∀ y, y ∈ [3, 4, 6, 7, 5].map StatementId.after ↔
        Relation.ReflTransGen s.RestsOn (.after 5) y := by
  intro s
  have hadded : Reached (fun e op => op.Sequential e ∧ op.Faithful e)
      (ringProof.run (Op.runAll (.inMemory {}) idleRing)).2 :=
    reached_idleRing.runAll [ringProof] (by decide +kernel)
  have hlive : s.contains (.after 5) = true := by decide +kernel
  have hrun : (s.trace (.after 5)).toOption = some ([3, 4, 6, 7, 5].map StatementId.after) := by
    decide +kernel
  obtain ⟨earlier, htrace, -, hmem, -⟩ := (hadded.trace_closure hlive).1
  have hsame : earlier ++ [.after 5] = [3, 4, 6, 7, 5].map StatementId.after := by
    rw [htrace] at hrun
    exact Option.some.inj hrun
  rw [hsame] at hmem
  exact ⟨hlive, hrun, hmem⟩

end StatementGraph
