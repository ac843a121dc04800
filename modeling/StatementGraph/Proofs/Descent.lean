import StatementGraph.Proofs.Precedence

namespace StatementGraph

namespace Walk

/-- What a walk has found: each node once and after a neighbour, the seeds first. -/
structure Spreads {α : Type} (next : α → List α) (seeds found : List α) : Prop where
  seeded : seeds <+: found
  nodup : found.Nodup
  led : ∀ x ∈ found, x ∈ seeds ∨ ∃ a, x ∈ next a ∧ [a, x].Sublist found

theorem spreads_singleton {α : Type} {next : α → List α} {x : α} : Spreads next [x] [x] where
  seeded := List.prefix_refl [x]
  nodup := List.pairwise_singleton _ x
  led _ hy := Or.inl hy

variable {α : Type} [DecidableEq α] {next : α → List α} {stack seeds found result : List α} {x : α}

theorem Spreads.expand (h : Spreads next seeds found) (hx : x ∈ found) :
    Spreads next seeds (found ++ unseen found (next x)) where
  seeded := h.seeded.trans (List.prefix_append _ _)
  nodup := nodup_append_unseen h.nodup
  led y hy := by
    rcases List.mem_append.1 hy with hold | hnew
    · apply (h.led y hold).imp_right
      rintro ⟨a, ha, hbefore⟩
      exact ⟨a, ha, hbefore.trans (List.sublist_append_left _ _)⟩
    · have hafter : ([x] ++ [y]).Sublist (found ++ unseen found (next x)) :=
        (List.singleton_sublist.2 hx).append (List.singleton_sublist.2 hnew)
      exact Or.inr ⟨x, (mem_unseen.1 hnew).1, hafter⟩

theorem Explores.spreads (h : Explores next stack found result) (hs : Spreads next seeds found)
    (hstack : ∀ a ∈ stack, a ∈ found) : Spreads next seeds result := by
  induction h with
  | done => exact hs
  | @expand x stack found result _ ih =>
    exact ih (hs.expand (hstack x List.mem_cons_self)) (stack_subset_expand hstack)

end Walk

namespace Store

variable {s : Store} {c x : StatementId}

/-- The walk down from a context ends, with the context first and what it lists after that. -/
theorem explores_descendants (hi : s.Indexed) :
    Walk.Explores (fun id => (s.localsOf id).reverse) [c] [c] (c :: s.descendants c) := by
  have hends : Walk.Explores (fun id => (s.localsOf id).reverse) [c] [c]
      (Walk.reach (fun id => (s.localsOf id).reverse) (s.size + 1) [c]) :=
    Walk.explores_reach_singleton (fun _ _ => live_of_mem_localsOf hi)
      (Nat.add_le_add_right (Nat.le_of_eq length_ids) 1)
  have hspreads := hends.spreads Walk.spreads_singleton fun _ ha => ha
  obtain ⟨rest, hrest⟩ := hspreads.seeded
  rw [List.singleton_append] at hrest
  -- the context is found once, so leaving it out leaves out the head only
  have hnew : c ∉ rest := (List.nodup_cons.1 (hrest ▸ hspreads.nodup)).1
  have hlisted : s.descendants c = rest := by
    rw [descendants, ← hrest, List.filter_cons_of_neg (by simp), List.filter_eq_self]
    intro x hx
    exact decide_eq_true fun he => hnew (he ▸ hx)
  rwa [hlisted, hrest]

theorem spreads_descendants (hi : s.Indexed) :
    Walk.Spreads (fun id => (s.localsOf id).reverse) [c] (c :: s.descendants c) :=
  (explores_descendants hi).spreads Walk.spreads_singleton fun _ ha => ha

theorem nodup_descendants (hi : s.Indexed) : (s.descendants c).Nodup :=
  (List.nodup_cons.1 (spreads_descendants hi).nodup).2

theorem owner_sublist_descendants (hi : s.Indexed) (hx : x ∈ s.descendants c) :
    ∃ o, s.ownerOf x = some o ∧ (o ≠ c → [o, x].Sublist (s.descendants c)) := by
  have hne : x ∉ [c] := fun h => ((mem_descendants hi).1 hx).2 (List.mem_singleton.1 h)
  obtain ⟨o, ho, hbefore⟩ :=
    ((spreads_descendants hi).led x (List.mem_cons_of_mem c hx)).resolve_left hne
  rw [List.mem_reverse, hi.mem_localsOf, ← ownerOf_eq_graph] at ho
  exact ⟨o, ho, fun hoc => hbefore.of_cons_of_ne hoc⟩

theorem mem_descendants_iff_mem_ancestors (hi : s.Indexed) :
    x ∈ s.descendants c ↔ x ≠ c ∧ c ∈ s.ancestors x := by
  rw [mem_descendants hi, mem_ancestors]
  constructor
  · rintro ⟨hw, hne⟩
    exact ⟨hne, Ne.symm hne, hw⟩
  · rintro ⟨hne, -, hw⟩
    exact ⟨hw, hne⟩

/-- The walks down and up end, and find the statements that have the context around them. -/
theorem containment_walks_agree (s : Store) (hi : s.Indexed) (c : StatementId) :
    Walk.Explores (fun id => (s.localsOf id).reverse) [c] [c] (c :: s.descendants c) ∧
    (∀ x, s.Climbs [x] (s.ownerOf x) (s.ancestors x)) ∧
    (s.descendants c).Nodup ∧
    (∀ x, x ∈ s.descendants c ↔ x ∈ s.ids ∧ x ≠ c ∧ c ∈ s.ancestors x) ∧
    (∀ x ∈ s.descendants c,
      ∃ o, s.ownerOf x = some o ∧ (o ≠ c → [o, x].Sublist (s.descendants c))) ∧
    (∀ x, x ∈ s.subtree c ↔ x ∈ s.descendants c ∨ x = c) ∧
    (∀ x, s.isBelow x c = true ↔ x ∈ s.descendants c) := by
  have howner (x : StatementId) (hx : x ∈ s.descendants c) := owner_sublist_descendants hi hx
  have hlists (x : StatementId) :
      x ∈ s.descendants c ↔ x ∈ s.ids ∧ x ≠ c ∧ c ∈ s.ancestors x := by
    rw [← mem_descendants_iff_mem_ancestors hi, iff_and_self]
    intro hx
    obtain ⟨o, ho, -⟩ := howner x hx
    exact live_of_ownerOf ho
  have hsubtree (x : StatementId) : x ∈ s.subtree c ↔ x ∈ s.descendants c ∨ x = c := by
    rw [subtree, IdSet.mem_insert, IdSet.mem_ofList, or_comm]
  have hbelow (x : StatementId) : s.isBelow x c = true ↔ x ∈ s.descendants c := by
    rw [isBelow, Bool.and_eq_true, decide_eq_true_iff, decide_eq_true_iff,
      mem_descendants_iff_mem_ancestors hi]
  exact ⟨explores_descendants hi, fun x => climbs_ancestors, nodup_descendants hi, hlists, howner,
    hsubtree, hbelow⟩

theorem tangle_walks_agree :
    tangle.Indexed ∧ tangle.descendants (.after 0) = [2, 1, 3].map StatementId.after ∧
      tangle.ancestors (.after 0) = [.after 1] ∧ tangle.contains (.after 8) = false ∧
      (∀ x, tangle.isBelow x (.after 0) = true ↔ x ∈ [2, 1, 3].map StatementId.after) ∧
      ∀ x, tangle.isBelow x (.after 8) = true ↔ x = .after 4 := by
  have hi : tangle.Indexed := indexed_empty.write.write.write.write.write
  have hring : tangle.descendants (.after 0) = [2, 1, 3].map StatementId.after := by
    decide +kernel
  have hgone : tangle.descendants (.after 8) = [.after 4] := by
    decide +kernel
  obtain ⟨-, -, -, -, -, -, hbelow⟩ := containment_walks_agree tangle hi (.after 0)
  obtain ⟨-, -, -, -, -, -, hbelow'⟩ := containment_walks_agree tangle hi (.after 8)
  rw [hring] at hbelow
  rw [hgone] at hbelow'
  exact ⟨hi, hring, by decide +kernel, by decide +kernel, hbelow,
    fun x => (hbelow' x).trans List.mem_singleton⟩

end Store

end StatementGraph
