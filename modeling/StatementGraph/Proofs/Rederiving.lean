import StatementGraph.Proofs.Propagation

namespace StatementGraph

namespace Store

variable {s : Store} {x y z : StatementId} {seeds : List StatementId}

theorem live_of_mem_supported (hi : s.Indexed) (h : y ∈ s.supported x) : y ∈ s.ids := by
  rw [mem_ids]
  rw [supported, List.mem_append, List.mem_append, hi.mem_localsOf, hi.mem_dependentsOf] at h
  rcases h with (h | ⟨c, hc, -⟩) | h
  · obtain ⟨c, hc, -⟩ := Graph.ownerOf_eq.1 h
    exact ⟨c, hc⟩
  · exact ⟨c, hc⟩
  · split at h
    · split at h
      · rw [contextsBelowByConsequent, List.mem_filter, hi.mem_contextsByConsequent] at h
        obtain ⟨⟨c, data, hc, -⟩, -⟩ := h
        exact ⟨c, hc⟩
      · cases h
    · cases h

theorem dependent_mem_supported (hi : s.Indexed) {c : Content} (hy : s.graph y = some c)
    (hx : x ∈ c.dependencies) : y ∈ s.supported x := by
  rw [supported, List.mem_append, List.mem_append, hi.mem_dependentsOf]
  exact Or.inl (Or.inr ⟨c, hy, hx⟩)

theorem solved_mem_supported (hi : s.Indexed) (h : s.graph.Solves x y) : y ∈ s.supported x := by
  obtain ⟨-, ⟨c, o, hc, ho, hw⟩, d, c', data, hd, hk, hc', ht⟩ := h
  rw [hc] at hc'
  cases hc'
  obtain ⟨st, hst, rfl⟩ := graph_eq_some.1 hc
  have ho : st.owner = some o := ho
  rw [Term.beq_comm] at ht
  simp only [supported, hst, ho, List.mem_append]
  exact Or.inr ((mem_contextsBelowByConsequent hi).2 ⟨⟨d, data, hd, hk, ht⟩, hw⟩)

theorem mem_region (hi : s.Indexed) : x ∈ s.region seeds ↔
    ∃ a ∈ seeds, Relation.ReflTransGen (fun a b => b ∈ s.supported a) a x := by
  rw [region, IdSet.mem_ofList]
  exact Walk.mem_reach (fun _ _ => live_of_mem_supported hi)
    (Nat.add_le_add_right (Nat.le_of_eq length_ids) seeds.length)

theorem region_supported (hi : s.Indexed) (hx : x ∈ s.region seeds) (hy : y ∈ s.supported x) :
    y ∈ s.region seeds := by
  obtain ⟨a, ha, hreach⟩ := (mem_region hi).1 hx
  exact (mem_region hi).2 ⟨a, ha, hreach.tail hy⟩

theorem region_dependent (hi : s.Indexed) {c : Content} (hy : s.graph y = some c)
    (hx : x ∈ c.dependencies) (h : x ∈ s.region seeds) : y ∈ s.region seeds :=
  region_supported hi h (dependent_mem_supported hi hy hx)

theorem region_solved (hi : s.Indexed) (hs : s.graph.Solves x y) (h : x ∈ s.region seeds) :
    y ∈ s.region seeds :=
  region_supported hi h (solved_mem_supported hi hs)

theorem approaches_of_cleared {R : StatementId → Prop} (hi : s.Indexed) (hf : s.graph.Forest)
    (ht : s.graph.Tracked) (hdep : ∀ x c d, s.graph x = some c → d ∈ c.dependencies → R d → R x)
    (hsolve : ∀ y x, s.graph.Solves y x → R y → R x)
    (h : ∀ x, s.Proved x ↔ s.graph.Derivable x ∧ ¬R x) : s.Approaches R := by
  refine ⟨hi, hf, ht, fun x hx => ((h x).1 hx).1, fun x hx => ?_, fun x hx hn => ?_⟩
  · obtain ⟨hd, hxR⟩ := (h x).1 hx
    obtain ⟨c, hc, hdeps, hsolver⟩ := hd.follows
    refine ⟨c, hc, fun d hd => (h d).2 ⟨hdeps d hd, fun hRd => hxR (hdep x c d hc hd hRd)⟩,
      fun data hk => ?_⟩
    obtain ⟨y, hsolves, hy⟩ := hsolver data hk
    exact ⟨y, hsolves, (h y).2 ⟨hy, fun hRy => hxR (hsolve y x hsolves hRy)⟩⟩
  · by_contra hxR
    exact hn ((h x).2 ⟨Graph.derivable_of_follows (hx.mono fun y hy => ((h y).1 hy).1), hxR⟩)

end Store

namespace Engine

open Store Propagation

variable {e : Engine} {t : TransactionId} {id x : StatementId} {seeds members : List StatementId}

theorem store_clearFlags (members : List StatementId) (hi : e.store.Indexed) :
    (members.foldl (clearFlag t) e).store.Indexed ∧
      e.store.Reflagged (members.foldl (clearFlag t) e).store ∧
      ∀ x, (members.foldl (clearFlag t) e).store.Proved x ↔ e.store.Proved x ∧ x ∉ members := by
  induction members generalizing e with
  | nil => exact ⟨hi, .refl _, fun x => by simp⟩
  | cons id rest ih =>
    have hone : (clearFlag t e id).store.Indexed ∧ e.store.Reflagged (clearFlag t e id).store ∧
        ∀ x, (clearFlag t e id).store.Proved x ↔ e.store.Proved x ∧ x ≠ id := by
      rw [clearFlag]
      split
      case isTrue hp =>
        rw [store_setProved]
        refine ⟨hi.setProved, reflagged_setProved, fun x => ?_⟩
        rw [proved_iff, get?_setProved]
        by_cases hx : x = id
        · simp [hx]
        · simp [hx, proved_iff]
      case isFalse hp =>
        refine ⟨hi, .refl _, fun x => ⟨fun hx => ⟨hx, ?_⟩, And.left⟩⟩
        rintro rfl
        exact hp hx
    obtain ⟨hi', hr', hp'⟩ := ih hone.1
    refine ⟨hi', hone.2.1.trans hr', fun x => ?_⟩
    rw [List.foldl_cons, hp', hone.2.2, List.mem_cons]
    tauto

theorem store_announceChange {before : Store} :
    (announceChange t before e id).store = e.store := by
  rw [announceChange]
  split
  · split
    · rfl
    · rw [store_notify]
  · rfl

theorem store_announceChanges {before : Store} :
    (members.foldl (announceChange t before) e).store = e.store := by
  induction members generalizing e with
  | nil => rfl
  | cons id rest ih => rw [List.foldl_cons, ih, store_announceChange]

theorem store_rederive : ((e.rederive t seeds).2).store =
    (((e.store.region seeds).toList.foldl (clearFlag t) e).propagation ⟨true, false⟩ t
      (((e.store.region seeds).toList.foldl (clearFlag t) e).store.dependencySorted
        (e.store.region seeds).toList true)).engine.store := by
  rw [rederive]
  exact store_announceChanges

theorem reflagged_rederive (hi : e.store.Indexed) :
    e.store.Reflagged (e.rederive t seeds).2.store := by
  rw [store_rederive]
  exact (store_clearFlags _ hi).2.1.trans reflagged_propagation

/-- Rederiving from seeds settles a store whose flags are right outside what the seeds support. -/
theorem settled_rederive (hi : e.store.Indexed) (hf : e.store.graph.Forest)
    (ht : e.store.graph.Tracked)
    (h : ∀ x, x ∉ e.store.region seeds → (e.store.Proved x ↔ e.store.graph.Derivable x)) :
    (e.rederive t seeds).2.store.Settled := by
  rw [store_rederive]
  obtain ⟨hi', hr, hp⟩ := store_clearFlags (t := t) (e.store.region seeds).toList hi
  have hcleared : ((e.store.region seeds).toList.foldl (clearFlag t) e).store.Approaches
      (· ∈ e.store.region seeds) := by
    refine approaches_of_cleared hi' (hr.graph ▸ hf) (hr.graph ▸ ht) ?_ ?_ fun x => ?_ <;>
      rw [hr.graph]
    · exact fun x c d hc hd hR => region_dependent hi hc hd hR
    · exact fun y x hs hR => region_solved hi hs hR
    · rw [hp]
      exact and_congr_left fun hx => h x hx
  exact (approaches_propagation (hcleared.imp fun x hx => Or.inl (mem_dependencySorted.2 hx))
    (covers_all _ _ _) fun _ _ => trivial).1

end Engine

end StatementGraph
