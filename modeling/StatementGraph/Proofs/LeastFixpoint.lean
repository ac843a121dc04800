import Mathlib.Order.Bounds.Basic
import StatementGraph.Proofs.Operation

namespace StatementGraph

namespace Store

variable {s : Store} {H : Graph} {D : Discipline} {P : StatementId → Bool} {x : StatementId}
  {l : List StatementId}

def withFlags (s : Store) (P : StatementId → Bool) : Store :=
  s.ids.foldl (fun s id => s.setProved id (P id)) s

/-- One round of the proof rule: what holds if exactly the statements of a set are proved. -/
def round (s : Store) (P : StatementId → Bool) : StatementId → Bool := fun x =>
  ((s.withFlags P).get? x).any (s.withFlags P).holds

theorem get?_foldl_setProved :
    (l.foldl (fun s id => s.setProved id (P id)) s).get? x =
      if x ∈ l then (s.get? x).map fun st => { st with proved := P x } else s.get? x := by
  induction l generalizing s with
  | nil => rfl
  | cons id rest ih =>
    rw [List.foldl_cons, ih, get?_setProved]
    by_cases hx : x = id
    · subst hx
      simp [Function.comp_def]
    · simp [hx]

theorem get?_withFlags :
    (s.withFlags P).get? x = (s.get? x).map fun st => { st with proved := P x } := by
  rw [withFlags, get?_foldl_setProved]
  split
  · rfl
  · rename_i hx
    have hnone : s.get? x = none := by
      by_contra hsome
      exact hx (Table.mem_keys.2 (Option.ne_none_iff_exists'.1 hsome))
    rw [hnone]
    rfl

theorem graph_withFlags : (s.withFlags P).graph = s.graph := by
  funext x
  rw [graph, get?_withFlags, Option.map_map]
  rfl

theorem Indexed.withFlags (h : s.Indexed) : (s.withFlags P).Indexed := by
  rw [Store.withFlags]
  generalize s.ids = l
  induction l generalizing s with
  | nil => exact h
  | cons id rest ih => exact ih h.setProved

theorem proved_withFlags :
    (s.withFlags P).Proved x ↔ (∃ c, s.graph x = some c) ∧ P x = true := by
  rw [Store.proved_iff, get?_withFlags, graph]
  cases s.get? x <;> simp

theorem round_iff (h : s.Settled) :
    s.round P x = true ↔ s.graph.Follows (s.withFlags P).Proved x := by
  have hi := h.indexed.withFlags (P := P)
  have hg := graph_withFlags (s := s) (P := P)
  rw [round, Option.any_eq_true]
  constructor
  · rintro ⟨st, hst, hholds⟩
    rw [holds_iff hi (hg ▸ h.tracked) hst, hg] at hholds
    exact hholds
  · rintro hfollows
    obtain ⟨c, hc, -⟩ := id hfollows
    obtain ⟨st, hst, -⟩ := graph_eq_some.1 (hg.symm ▸ hc)
    refine ⟨st, hst, ?_⟩
    rw [holds_iff hi (hg ▸ h.tracked) hst, hg]
    exact hfollows

theorem Settled.isLeast (h : s.Settled) : IsLeast {P | s.round P = P} s.isProved := by
  constructor
  · funext x
    have hflags : (s.withFlags s.isProved).Proved = s.graph.Derivable := by
      funext y
      rw [← h.proved_iff, proved_withFlags]
      exact propext ⟨And.right, fun hy => ⟨(h.derivable y hy).live, hy⟩⟩
    rw [Bool.eq_iff_iff, round_iff h, hflags]
    exact ⟨fun hx => h.proved_iff.2 (Graph.derivable_of_follows hx),
      fun hx => (h.proved_iff.1 hx).follows⟩
  · -- a set that a round gives back has whatever follows from it, so it has what is derivable
    intro P hP x hx
    have hround : ∀ y, s.graph.Follows (s.withFlags P).Proved y → (s.withFlags P).Proved y := by
      intro y hy
      obtain ⟨c, hc, -⟩ := id hy
      exact proved_withFlags.2 ⟨⟨c, hc⟩, congrFun hP y ▸ (round_iff h).2 hy⟩
    exact (proved_withFlags.1 ((h.derivable x hx).least hround)).2

theorem inconsistent_eq_nil (h : ∀ x st, s.get? x = some st → s.holds st = st.proved) :
    s.inconsistent = [] := by
  rw [inconsistent, List.map_eq_nil_iff, List.filter_eq_nil_iff]
  intro st hst
  obtain ⟨x, hx⟩ := Table.mem_values.1 hst
  simp [h x st hx]

theorem Settled.inconsistent_eq_nil (h : s.Settled) : s.inconsistent = [] :=
  Store.inconsistent_eq_nil fun _ _ hst => h.holds_eq hst

/-- Contexts that have no solvers but one another stay unproved. -/
theorem Settled.unproved_of_circular (h : s.Settled) {C : Set StatementId}
    (hC : ∀ x ∈ C, ∃ st data, s.get? x = some st ∧ st.kind = .context data ∧
      ∀ y ∈ s.solversFor x data.consequent, y ∈ C) (hx : x ∈ C) : s.isProved x = false := by
  suffices hnot : ∀ y, s.graph.Derivable y → y ∉ C from
    Bool.eq_false_iff.2 fun hp => hnot x (h.derivable x hp) hx
  intro y hy
  induction hy with
  | plain hc hk hd ih =>
    intro hmem
    obtain ⟨st, data, hst, hkind, -⟩ := hC _ hmem
    obtain ⟨st', hst', rfl⟩ := graph_eq_some.1 hc
    cases hst.symm.trans hst'
    exact hk data hkind
  | @solved y z c hc hd hs hz ihd ihz =>
    intro hmem
    obtain ⟨st, data, hst, hkind, hsolvers⟩ := hC y hmem
    refine ihz (hsolvers z ?_)
    obtain ⟨hne, hsees, cy, cz, data', hcy, hkind', hcz, hterm⟩ := hs
    cases (graph_of_get? hst).symm.trans hcy
    cases hkind.symm.trans hkind'
    exact (mem_solversFor h.indexed).2 ⟨hne, hsees, cz, hcz, hterm⟩

end Store

/-- The proved statements are the least fixpoint of the proof rule. -/
theorem Reached.proved_isLeast {e : Engine}
    (h : Reached (fun e op => op.Sequential e ∧ op.Faithful e) e) :
    IsLeast {P | e.store.round P = P} e.store.isProved ∧ e.store.inconsistent = [] ∧
      ∀ C : Set StatementId,
        (∀ x ∈ C, ∃ st data, e.store.get? x = some st ∧ st.kind = .context data ∧
          ∀ y ∈ e.store.solversFor x data.consequent, y ∈ C) →
        ∀ x ∈ C, e.store.isProved x = false := by
  obtain ⟨H, hsession⟩ := h.session (fun _ _ hop => hop.1) (fun _ _ hop => hop.2.offers)
  have hsettled := hsession.maintained.settled hsession.lawful
  exact ⟨hsettled.isLeast, hsettled.inconsistent_eq_nil,
    fun C hC x hx => hsettled.unproved_of_circular hC hx⟩

theorem twoRoots_isLeast :
    let s := (Op.runAll (.inMemory {}) twoRoots).store
    IsLeast {P | s.round P = P} s.isProved ∧ s.isProved (.after 0) = false ∧
      s.isProved (.after 3) = true :=
  ⟨(Reached.proved_isLeast (reached_twoRoots.mono fun _ _ hop => ⟨hop.1, hop.2.1⟩)).1, rfl, rfl⟩

end StatementGraph
