import StatementGraph.Proofs.Containment
import StatementGraph.Proofs.TermScope
import StatementGraph.Rule

namespace StatementGraph

/-- The statements that the kind of a statement makes the proof rule look at. -/
def StatementKind.Reads : StatementKind → StatementId → Prop
  | assumption _, _ => False
  | declaration value, d => d ∈ value.freeVars
  | specialization general argument, d => d = general ∨ d ∈ argument.freeVars
  | context data, d => data.kind = .unfolding d

namespace Graph

variable {G H : Graph} {P Q : StatementId → Prop} {x y : StatementId}

/-- Every statement depends on exactly what the proof rule looks at. -/
def Tracked (G : Graph) : Prop :=
  ∀ x c, G x = some c → ∀ d, d ∈ c.dependencies ↔ d ∈ c.term.freeVars ∨ c.kind.Reads d

/-- A statement follows by the proof rule from the statements of a set. -/
def Follows (G : Graph) (P : StatementId → Prop) (x : StatementId) : Prop :=
  ∃ c, G x = some c ∧ (∀ d ∈ c.dependencies, P d) ∧
    ∀ data, c.kind = .context data → ∃ y, G.Solves y x ∧ P y

theorem Follows.mono (h : G.Follows P x) (hPQ : ∀ y, P y → Q y) : G.Follows Q x := by
  obtain ⟨c, hc, hd, hk⟩ := h
  refine ⟨c, hc, fun d h => hPQ d (hd d h), fun data h => ?_⟩
  obtain ⟨y, hy, hP⟩ := hk data h
  exact ⟨y, hy, hPQ y hP⟩

theorem Follows.sub (h : G.Follows P x) (hs : G.Sub H) : H.Follows P x := by
  obtain ⟨c, hc, hd, hk⟩ := h
  refine ⟨c, hs x c hc, hd, fun data h => ?_⟩
  obtain ⟨y, hy, hP⟩ := hk data h
  exact ⟨y, hs.solves hy, hP⟩

theorem derivable_of_follows (h : G.Follows G.Derivable x) : G.Derivable x := by
  obtain ⟨c, hc, hd, hk⟩ := h
  by_cases hctx : ∃ data, c.kind = .context data
  · obtain ⟨data, hdata⟩ := hctx
    obtain ⟨y, hy, hP⟩ := hk data hdata
    exact .solved hc hd hy hP
  · exact .plain hc (fun data h => hctx ⟨data, h⟩) hd

theorem Derivable.follows (h : G.Derivable x) : G.Follows G.Derivable x := by
  cases h with
  | plain hx hk hd => exact ⟨_, hx, hd, fun data h => absurd h (hk data)⟩
  | solved hx hd hs hy => exact ⟨_, hx, hd, fun _ _ => ⟨_, hs, hy⟩⟩

theorem Derivable.least (hP : ∀ x, G.Follows P x → P x) (h : G.Derivable x) : P x := by
  induction h with
  | plain hx hk _ ih => exact hP _ ⟨_, hx, ih, fun data h => absurd h (hk data)⟩
  | solved hx _ hs _ ihd ihy => exact hP _ ⟨_, hx, ihd, fun _ _ => ⟨_, hs, ihy⟩⟩

theorem Follows.of_joined (h : G.Follows (fun z => z = y ∨ P z) x) (hn : ¬G.Follows P x) :
    (∃ c, G x = some c ∧ y ∈ c.dependencies) ∨ G.Solves y x := by
  obtain ⟨c, hc, hd, hk⟩ := h
  by_cases hy : y ∈ c.dependencies
  · exact Or.inl ⟨c, hc, hy⟩
  · right
    by_contra hsolve
    refine hn ⟨c, hc, fun d h => ?_, fun data h => ?_⟩
    · exact (hd d h).resolve_left fun he => hy (he ▸ h)
    · obtain ⟨z, hz, hP⟩ := hk data h
      exact ⟨z, hz, hP.resolve_left fun he => hsolve (he ▸ hz)⟩

end Graph

namespace Store

variable {s : Store} {x y : StatementId} {st : Statement}

def Proved (s : Store) (x : StatementId) : Prop := s.isProved x = true

theorem proved_iff : s.Proved x ↔ ∃ st, s.get? x = some st ∧ st.proved = true := by
  rw [Proved, isProved, Option.any_eq_true]

theorem proved_of_get? (h : s.get? x = some st) : s.Proved x ↔ st.proved = true := by
  simp [proved_iff, h]

theorem allProved_iff {ids : IdSet} : s.allProved ids = true ↔ ∀ d ∈ ids, s.Proved d := by
  rw [allProved, List.all_eq_true]
  exact Iff.rfl

theorem any_solversFor (hi : s.Indexed) {data : ContextData}
    (hst : s.get? x = some st) (hk : st.kind = .context data) :
    (s.solversFor x data.consequent).any s.isProved = true ↔
      ∃ y, s.graph.Solves y x ∧ s.Proved y := by
  have hx := graph_of_get? hst
  rw [List.any_eq_true]
  refine exists_congr fun y => and_congr_left' ?_
  rw [mem_solversFor hi]
  constructor
  · rintro ⟨hne, hsees, c, hc, ht⟩
    exact ⟨hne, hsees, st.content, c, data, hx, hk, hc, ht⟩
  · rintro ⟨hne, hsees, c, c', data', hx', hk', hc', ht⟩
    rw [hx] at hx'
    cases hx'
    cases hk.symm.trans hk'
    exact ⟨hne, hsees, c', hc', ht⟩

theorem kindHolds_iff (hi : s.Indexed) (hst : s.get? x = some st) :
    s.kindHolds st = true ↔ (∀ d, st.kind.Reads d → s.Proved d) ∧
      ∀ data, st.kind = .context data → ∃ y, s.graph.Solves y x ∧ s.Proved y := by
  have hid : st.id = x := hi.keyed x st hst
  rw [kindHolds]
  cases hk : st.kind with
  | assumption order => simp [StatementKind.Reads]
  | declaration value => simp [StatementKind.Reads, allProved_iff]
  | specialization general argument =>
    simp only [StatementKind.Reads, Bool.and_eq_true, allProved_iff, reduceCtorEq, false_imp_iff,
      implies_true, and_true]
    constructor
    · rintro ⟨hg, ha⟩ d (rfl | hd)
      · exact hg
      · exact ha d hd
    · intro h
      exact ⟨h general (Or.inl rfl), fun d hd => h d (Or.inr hd)⟩
  | context data =>
    simp only [StatementKind.Reads, Bool.and_eq_true, hid, any_solversFor hi hst hk]
    refine and_congr ?_ ?_
    · cases data.kind <;> simp [Proved]
    · simp

theorem holds_iff (hi : s.Indexed) (ht : s.graph.Tracked) (hst : s.get? x = some st) :
    s.holds st = true ↔ s.graph.Follows s.Proved x := by
  have hx := graph_of_get? hst
  rw [holds, Bool.and_eq_true, allProved_iff, kindHolds_iff hi hst]
  constructor
  · rintro ⟨hvars, hreads, hsolver⟩
    refine ⟨st.content, hx, fun d hd => ?_, hsolver⟩
    rcases (ht x st.content hx d).1 hd with h | h
    · exact hvars d h
    · exact hreads d h
  · rintro ⟨c, hc, hd, hsolver⟩
    rw [hx] at hc
    cases hc
    refine ⟨fun d h => ?_, fun d h => ?_, hsolver⟩
    · exact hd d ((ht x st.content hx d).2 (Or.inl h))
    · exact hd d ((ht x st.content hx d).2 (Or.inr h))

end Store

end StatementGraph
