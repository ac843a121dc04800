import StatementGraph.Proofs.IndexMirror
import StatementGraph.Proofs.Walks
import StatementGraph.Scope

namespace StatementGraph

namespace Store

variable {s : Store} {met path : List StatementId} {current : Option StatementId}
  {x y z : StatementId}

theorem ownerOf_eq_graph : s.ownerOf x = s.graph.ownerOf x := by
  rw [ownerOf, Graph.ownerOf, graph]
  cases s.get? x <;> rfl

theorem mem_ids : x ∈ s.ids ↔ ∃ c, s.graph x = some c := by
  rw [ids, Table.mem_keys]
  constructor
  · rintro ⟨st, hst⟩
    exact ⟨st.content, graph_of_get? hst⟩
  · rintro ⟨c, hc⟩
    obtain ⟨st, hst, -⟩ := graph_eq_some.1 hc
    exact ⟨st, hst⟩

theorem length_ids : s.ids.length = s.size := Table.length_keys

theorem live_of_ownerOf (h : s.ownerOf x = some y) : x ∈ s.ids := by
  rw [ownerOf_eq_graph] at h
  obtain ⟨c, hc, -⟩ := Graph.ownerOf_eq.1 h
  exact mem_ids.2 ⟨c, hc⟩

/-- How the walk over owners goes on from a place, with no bound on its steps. -/
inductive Climbs (s : Store) :
    List StatementId → Option StatementId → List StatementId → Prop where
  | top {met : List StatementId} : Climbs s met none []
  | again {met : List StatementId} {x : StatementId} (hx : x ∈ met) : Climbs s met (some x) []
  | up {met path : List StatementId} {x : StatementId} (hx : x ∉ met)
      (h : Climbs s (x :: met) (s.ownerOf x) path) : Climbs s met (some x) (x :: path)

theorem climb_none {steps : Nat} : s.climb steps met none = [] := by cases steps <;> rfl

theorem climbs_climb {steps : Nat} (hnd : met.Nodup) (hlive : ∀ m ∈ met, m ∈ s.ids)
    (hsteps : s.size + 1 ≤ steps + met.length) :
    s.Climbs met current (s.climb steps met current) := by
  induction steps generalizing met current with
  | zero =>
    have hle : met.length ≤ s.ids.length := (List.subperm_of_subset hnd hlive).length_le
    rw [length_ids] at hle
    omega
  | succ steps ih =>
    cases current with
    | none => exact .top
    | some x =>
      rw [climb]
      split
      case isTrue hmet => exact .again hmet
      case isFalse hnew =>
        apply Climbs.up hnew
        cases ho : s.ownerOf x with
        | none =>
          rw [climb_none]
          exact .top
        | some o =>
          apply ih (List.nodup_cons.2 ⟨hnew, hnd⟩)
          · exact List.forall_mem_cons.2 ⟨live_of_ownerOf ho, hlive⟩
          · rw [List.length_cons]
            omega

theorem climbs_ancestors : s.Climbs [x] (s.ownerOf x) (s.ancestors x) := by
  rw [ancestors]
  cases ho : s.ownerOf x with
  | none => exact .top
  | some o =>
    apply climbs_climb (List.pairwise_singleton _ x) _ (Nat.le_add_right _ 1)
    intro m hm
    rw [List.mem_singleton.1 hm]
    exact live_of_ownerOf ho

theorem Climbs.within (h : s.Climbs met current path) (hy : y ∈ path) :
    ∃ x, current = some x ∧ s.graph.Within x y := by
  induction h with
  | top => cases hy
  | again => cases hy
  | @up met path x _ _ ih =>
    refine ⟨x, rfl, ?_⟩
    rcases List.mem_cons.1 hy with rfl | hy
    · exact .refl
    · obtain ⟨o, ho, hw⟩ := ih hy
      exact .head (ownerOf_eq_graph ▸ ho) hw

theorem Climbs.not_mem (h : s.Climbs met current path) (hy : y ∈ path) : y ∉ met := by
  induction h with
  | top => cases hy
  | again => cases hy
  | up hnew _ ih =>
    rcases List.mem_cons.1 hy with rfl | hy
    · exact hnew
    · exact fun hmet => ih hy (List.mem_cons_of_mem _ hmet)

/-- When the walk stops it has met the owner of each statement that it has met. -/
theorem Climbs.closed (h : s.Climbs met current path)
    (hdone : ∀ a ∈ met, ∀ b, s.ownerOf a = some b → b ∈ met ∨ current = some b)
    (hx : x ∈ met ++ path) (ho : s.ownerOf x = some y) : y ∈ met ++ path := by
  induction h with
  | top =>
    rw [List.append_nil] at hx ⊢
    exact (hdone x hx y ho).resolve_right fun h => by cases h
  | again hmet =>
    rw [List.append_nil] at hx ⊢
    rcases hdone x hx y ho with hy | hy
    · exact hy
    · cases hy
      exact hmet
  | @up met path z _ _ ih =>
    rw [List.perm_middle.mem_iff] at hx ⊢
    refine ih ?_ hx
    intro a ha b hb
    rcases List.mem_cons.1 ha with rfl | ha
    · exact Or.inr hb
    · rcases hdone a ha b hb with hb | hb
      · exact Or.inl (List.mem_cons_of_mem _ hb)
      · cases hb
        exact Or.inl List.mem_cons_self

theorem mem_contextPath : y ∈ s.contextPath x ↔ s.graph.Within x y := by
  constructor
  · intro hy
    rcases List.mem_cons.1 hy with rfl | hy
    · exact .refl
    · obtain ⟨o, ho, hw⟩ := climbs_ancestors.within hy
      exact .head (ownerOf_eq_graph ▸ ho) hw
  · intro hw
    induction hw with
    | refl => exact List.mem_cons_self
    | tail _ hstep ih =>
      refine climbs_ancestors.closed ?_ ih (ownerOf_eq_graph ▸ hstep)
      intro a ha b hb
      exact Or.inr (List.mem_singleton.1 ha ▸ hb)

theorem mem_ancestors : y ∈ s.ancestors x ↔ y ≠ x ∧ s.graph.Within x y := by
  rw [← mem_contextPath, contextPath, List.mem_cons]
  constructor
  · intro hy
    have hne : y ∉ [x] := climbs_ancestors.not_mem hy
    exact ⟨by simpa using hne, Or.inr hy⟩
  · rintro ⟨hne, hy⟩
    exact hy.resolve_left hne

theorem mem_ancestors_of_owner (hf : s.graph.Forest) (ho : s.graph.ownerOf x = some z)
    (hw : s.graph.Within z y) : y ∈ s.ancestors x := by
  refine mem_ancestors.2 ⟨?_, .head ho hw⟩
  rintro rfl
  exact hf.not_within (hf.owner ho).1 hw

theorem isWithin_iff : s.isWithin x y = true ↔ s.graph.Within x y := by
  rw [← mem_contextPath, contextPath, List.mem_cons, isWithin, isBelow]
  by_cases h : x = y <;> simp [h, eq_comm]

theorem isVisible_iff : s.isVisible x y = true ↔ s.graph.Sees y x := by
  rw [isVisible, ownerOf_eq_graph, Option.any_eq_true]
  simp only [isWithin_iff, Graph.ownerOf_eq, Graph.Sees]
  constructor
  · rintro ⟨o, ⟨c, hc, ho⟩, hw⟩
    exact ⟨c, o, hc, ho, hw⟩
  · rintro ⟨c, o, hc, ho, hw⟩
    exact ⟨o, ⟨c, hc, ho⟩, hw⟩

theorem within_rootOf : s.graph.Within x (s.rootOf x) :=
  mem_contextPath.1 List.getLastD_mem_cons

/-- In a forest the walk meets smaller and smaller statements, so it stops at one without owner. -/
theorem Climbs.ownerOf_getLastD (hf : s.graph.Forest) (h : s.Climbs met current path)
    (hmet : ∀ o, current = some o → ∀ m ∈ met, o < m) (hx : s.ownerOf x = current) :
    s.ownerOf (path.getLastD x) = none := by
  induction h generalizing x with
  | top => exact hx
  | @again met y hy => exact absurd (hmet y rfl y hy) (Nat.lt_irrefl _)
  | @up met path y _ _ ih =>
    rw [List.getLastD_cons]
    refine ih ?_ rfl
    intro o ho m hm
    have hlt := (hf.owner (ownerOf_eq_graph ▸ ho)).1
    rcases List.mem_cons.1 hm with rfl | hm
    · exact hlt
    · exact Nat.lt_trans hlt (hmet y rfl m hm)

theorem ownerOf_rootOf (hf : s.graph.Forest) : s.graph.ownerOf (s.rootOf x) = none := by
  rw [← ownerOf_eq_graph]
  refine climbs_ancestors.ownerOf_getLastD hf ?_ rfl
  intro o ho m hm
  rw [List.mem_singleton.1 hm]
  exact (hf.owner (ownerOf_eq_graph ▸ ho)).1

variable (hi : s.Indexed)

include hi

theorem live_of_mem_localsOf (h : y ∈ (s.localsOf x).reverse) : y ∈ s.ids := by
  rw [List.mem_reverse, hi.mem_localsOf, ← ownerOf_eq_graph] at h
  exact live_of_ownerOf h

theorem mem_descendants : y ∈ s.descendants x ↔ s.graph.Within y x ∧ y ≠ x := by
  rw [descendants, List.mem_filter, decide_eq_true_iff]
  refine and_congr_left' ?_
  have hbound : s.ids.length + [x].length ≤ s.size + 1 := Nat.le_of_eq (congrArg (· + 1) length_ids)
  rw [Walk.mem_reach (fun _ _ => live_of_mem_localsOf hi) hbound]
  simp only [List.mem_singleton, exists_eq_left, List.mem_reverse, hi.mem_localsOf]
  exact Relation.reflTransGen_swap

theorem mem_subtree : y ∈ s.subtree x ↔ s.graph.Within y x := by
  rw [subtree, IdSet.mem_insert, IdSet.mem_ofList, mem_descendants hi]
  constructor
  · rintro (rfl | ⟨hw, -⟩)
    · exact .refl
    · exact hw
  · intro hw
    by_cases h : y = x
    · exact Or.inl h
    · exact Or.inr ⟨hw, h⟩

theorem mem_membersOf (ho : s.graph.Owned) {st : Statement} (hst : s.get? x = some st) :
    y ∈ s.membersOf st ↔ s.graph.Within y x := by
  have hid : st.id = x := hi.keyed x st hst
  rw [membersOf, hid]
  split
  case isTrue h => exact mem_subtree hi
  case isFalse h =>
    rw [IdSet.mem_singleton]
    constructor
    · rintro rfl
      exact .refl
    · intro hw
      rcases Relation.ReflTransGen.cases_tail hw with rfl | ⟨z, -, hz⟩
      · rfl
      · -- only contexts own statements
        obtain ⟨c, data, hc, hk⟩ := ho.owner hz
        rw [graph_of_get? hst] at hc
        cases hc
        exact absurd (Statement.isContext_iff.2 ⟨data, hk⟩) h

theorem mem_contextsBelowByConsequent {t : Term} :
    y ∈ s.contextsBelowByConsequent x t ↔
      (∃ c data, s.graph y = some c ∧ c.kind = .context data ∧ (data.consequent == t) = true) ∧
        s.graph.Within y x := by
  rw [contextsBelowByConsequent, List.mem_filter, hi.mem_contextsByConsequent, isWithin_iff]

theorem mem_solversFor {t : Term} : y ∈ s.solversFor x t ↔
    y ≠ x ∧ s.graph.Sees x y ∧ ∃ c, s.graph y = some c ∧ (c.term == t) = true := by
  simp only [solversFor, visibleByTerm, List.mem_filter, List.mem_flatMap, decide_eq_true_iff,
    hi.mem_localsByTerm, mem_contextPath]
  constructor
  · rintro ⟨⟨o, hw, c, hc, ho, ht⟩, hne⟩
    exact ⟨hne, ⟨c, o, hc, ho, hw⟩, c, hc, ht⟩
  · rintro ⟨hne, ⟨c, o, hc, ho, hw⟩, c', hc', ht⟩
    cases hc.symm.trans hc'
    exact ⟨⟨o, hw, c, hc, ho, ht⟩, hne⟩

omit hi

theorem mem_dependencySorted {ids : List StatementId} {ownersFirst : Bool} :
    x ∈ s.dependencySorted ids ownersFirst ↔ x ∈ ids := by
  refine Walk.mem_order fun a _ b hb => ?_
  rw [predecessors] at hb
  split at hb
  case h_1 => cases hb
  case h_2 =>
    split at hb
    case isTrue => grind
    case isFalse => grind

end Store

end StatementGraph
