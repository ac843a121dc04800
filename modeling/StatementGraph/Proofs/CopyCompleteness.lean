import StatementGraph.Proofs.CopyRun
import StatementGraph.Proofs.Operation

namespace StatementGraph

namespace Store

variable {s : Store} {target x : StatementId} {ids : List StatementId}

def trees (s : Store) (ids : List StatementId) : List StatementId :=
  ids.flatMap fun x => (s.subtree x).toList

def dependenciesOf (s : Store) (x : StatementId) : List StatementId :=
  ((s.get? x).map fun st => st.dependencies.toList).getD []

def Reaches (s : Store) (target : StatementId) (ids : List StatementId) : Prop :=
  ∀ x ∈ s.trees ids, ∀ d ∈ s.dependenciesOf x, d ∈ s.trees ids ∨ s.isVisible d target = true

def Convex (s : Store) (ids : List StatementId) : Prop :=
  ∀ x ∈ s.trees ids, ∀ d ∈ s.dependenciesOf x, d ∉ s.trees ids →
    ∀ y ∈ s.dependenciesOf d, y ∉ s.trees ids

/-- Copying comes to each statement after it came to those that the statement depends on. -/
def CopiedInOrder (s : Store) (ids : List StatementId) : Prop :=
  ∀ x ∈ s.copyOrder ids, ∀ d ∈ s.neededBy x, d ∈ s.trees ids →
    (s.copyOrder ids).idxOf d < (s.copyOrder ids).idxOf x

instance : Decidable (s.Reaches target ids) := inferInstanceAs (Decidable (∀ x ∈ s.trees ids,
  ∀ d ∈ s.dependenciesOf x, d ∈ s.trees ids ∨ s.isVisible d target = true))

instance : Decidable (s.Convex ids) := inferInstanceAs (Decidable (∀ x ∈ s.trees ids,
  ∀ d ∈ s.dependenciesOf x, d ∉ s.trees ids → ∀ y ∈ s.dependenciesOf d, y ∉ s.trees ids))

instance : Decidable (s.CopiedInOrder ids) := inferInstanceAs (Decidable (∀ x ∈ s.copyOrder ids,
  ∀ d ∈ s.neededBy x, d ∈ s.trees ids → (s.copyOrder ids).idxOf d < (s.copyOrder ids).idxOf x))

theorem mem_trees (hi : s.Indexed) : x ∈ s.trees ids ↔ ∃ y ∈ ids, s.graph.Within x y := by
  simp only [trees, List.mem_flatMap, IdSet.mem_toList, mem_subtree hi]

theorem mem_dependenciesOf {d : StatementId} :
    d ∈ s.dependenciesOf x ↔ ∃ c, s.graph x = some c ∧ d ∈ c.dependencies := by
  constructor
  · intro hd
    cases hst : s.get? x with
    | none =>
      rw [dependenciesOf, hst] at hd
      cases hd
    | some st =>
      rw [dependenciesOf, hst] at hd
      exact ⟨st.content, graph_of_get? hst, hd⟩
  · rintro ⟨c, hc, hd⟩
    obtain ⟨st, hst, rfl⟩ := graph_eq_some.1 hc
    rw [dependenciesOf, hst]
    exact hd

theorem mem_of_idxOf_lt {d : StatementId} {before after : List StatementId}
    (h : (before ++ x :: after).idxOf d < (before ++ x :: after).idxOf x) : d ∈ before := by
  by_contra hd
  have hle : (before ++ x :: after).idxOf x ≤ before.length := by
    by_cases hx : x ∈ before
    · rw [List.idxOf_append_of_mem hx]
      exact List.idxOf_le_length
    · rw [List.idxOf_append_of_notMem hx, List.idxOf_cons_self]
      exact Nat.le_refl _
  rw [List.idxOf_append_of_notMem hd] at h
  omega

end Store

namespace CopyPlan

variable {p : CopyPlan} {H : Graph} {state : CopyState} {d o x y : StatementId} {c : Content}

theorem member_iff : p.Member x ↔ x ∈ p.engine.store.trees p.sources :=
  (Store.mem_trees p.sound.maintained.indexed).symm

theorem portable
    (hplain : ∀ x ∈ p.sources, ∀ st, p.engine.store.get? x = some st → st.isAssumption = false)
    (hapart : ∀ x ∈ p.sources, p.target ∉ p.engine.store.subtree x)
    (hreaches : p.engine.store.Reaches p.target p.sources)
    (hconvex : p.engine.store.Convex p.sources)
    (horder : p.engine.store.CopiedInOrder p.sources) : p.Portable where
  plain x hx c i hc hk := by
    obtain ⟨st, hst, rfl⟩ := Store.graph_eq_some.1 hc
    exact Bool.eq_false_iff.1 (hplain x hx st hst) (Statement.isAssumption_iff.2 ⟨i, hk⟩)
  apart x hx hw := hapart x hx ((Store.mem_subtree p.sound.maintained.indexed).2 hw)
  visible x c d hx hc hd := by
    refine (hreaches x (member_iff.1 hx) d (Store.mem_dependenciesOf.2 ⟨c, hc, hd⟩)).imp
      member_iff.2 fun hsees => ?_
    exact Store.isVisible_iff.1 hsees
  closed x c d c' y hx hc hd hnot hc' hy hmem :=
    hconvex x (member_iff.1 hx) d (Store.mem_dependenciesOf.2 ⟨c, hc, hd⟩)
      (fun hd => hnot (member_iff.2 hd)) y (Store.mem_dependenciesOf.2 ⟨c', hc', hy⟩)
      (member_iff.1 hmem)
  ordered before x after heq d hd hmem := by
    have hsame : p.engine.store.copyOrder p.sources = before ++ x :: after := heq
    rw [Store.CopiedInOrder, hsame] at horder
    exact Store.mem_of_idxOf_lt (horder x (List.mem_append_right _ List.mem_cons_self) d hd
      (member_iff.1 hmem))

theorem Keeps.uncopied {outer : List StatementId} (h : p.Keeps outer H state) (y : StatementId) :
    state.map.get? ((state.map.get? y).getD y) = none := by
  cases hy : state.map.get? y with
  | none => exact hy
  | some z =>
    refine Option.eq_none_iff_forall_ne_some.2 fun w hw => ?_
    obtain ⟨c, hc⟩ := h.known z w hw
    cases hc.symm.trans (h.new hy)

theorem Keeps.detached {outer : List StatementId} (h : p.Keeps outer H state) (hp : p.Portable)
    (hox : state.map.get? o = some x) (hc : state.engine.store.graph x = some c)
    (hd : d ∈ c.dependencies) : state.map.get? d = none := by
  obtain ⟨c₀, hc₀⟩ := h.known o x hox
  obtain ⟨y, -, rfl⟩ := (h.renames hp).dependency h.sound.lawful hox
    (h.sound.maintained.sub o c₀ (h.sub o c₀ hc₀)) (h.sound.maintained.sub x c hc) hd
  exact h.uncopied y

end CopyPlan

/-- Copying is complete if nothing left out is between the statements and each can go in turn. -/
theorem Reached.copy_complete {e : Engine} {t : TransactionId} {target : StatementId}
    {sources : List StatementId} (exclude : IdSet)
    (h : Reached (fun e op => op.Sequential e ∧ op.Faithful e) e) (hopen : e.isOpen t = true)
    (htarget : ∃ st, e.store.get? target = some st ∧ st.isContext = true)
    (hplain : ∀ x ∈ sources, ∃ st, e.store.get? x = some st ∧ st.isAssumption = false)
    (hapart : ∀ x ∈ sources, target ∉ e.store.subtree x)
    (hreaches : e.store.Reaches target sources) (hconvex : e.store.Convex sources)
    (horder : e.store.CopiedInOrder sources) :
    (e.copy t target sources {} exclude).1 = .error Engine.exhausted ∨
      ∃ copies map e', e.copy t target sources {} exclude = (.ok copies, map, e') ∧
        ∀ x st, e'.store.get? x = some st → e.store.get? x = none →
          ∀ d ∈ st.dependencies, map.get? d = none := by
  obtain ⟨H, hsession⟩ := h.session (fun _ _ hop => hop.1) (fun _ _ hop => hop.2.offers)
  obtain ⟨st, hst, hctx⟩ := htarget
  obtain ⟨data, hdata⟩ := Statement.isContext_iff.1 hctx
  have hsources (x : StatementId) (hx : x ∈ sources) : ∃ c, e.store.graph x = some c := by
    obtain ⟨st, hst, -⟩ := hplain x hx
    exact ⟨_, Store.graph_of_get? hst⟩
  let p : CopyPlan := ⟨t, H, e, target, sources, hsession.sound hopen,
    ⟨st.content, data, Store.graph_of_get? hst, hdata⟩, hsources⟩
  have hp : p.Portable := CopyPlan.portable
    (fun x hx st hst => by
      obtain ⟨st', hst', hplain⟩ := hplain x hx
      cases hst'.symm.trans hst
      exact hplain) hapart hreaches hconvex horder
  rcases p.copy_cases exclude with ⟨f, map, e', hcopy, hf⟩ | ⟨copies, map, e', H', hcopy, hk, -⟩
  · left
    change (p.engine.copy p.t p.target p.sources {} exclude).1 = _
    rw [hcopy, hf hp]
  · refine Or.inr ⟨copies, map, e', hcopy, fun x st hst hnew d hd => ?_⟩
    have hx := Store.graph_of_get? hst
    rcases hk.cases hx with hold | ⟨o, ho⟩
    · obtain ⟨st₀, hst₀, -⟩ := Store.graph_eq_some.1 hold
      cases hst₀.symm.trans hnew
    · exact hk.detached hp ho hx hd

/-- A context that mentions from within a declaration beside it, and a context that sees neither. -/
def secluded : List Op :=
  [.begin none, .createRoot ⟨1⟩ (.function ⟨0⟩ (.atom "A") (.atom "B")),
    .openNested ⟨1⟩ (.after 0) (.atom "A"), .openNested ⟨1⟩ (.after 2) (.atom "A"),
    .declare ⟨1⟩ (.after 2) (.var (.after 1) (.atom "A")),
    .declare ⟨1⟩ (.after 3) (.var (.after 4) (.atom "A")),
    .openNested ⟨1⟩ (.after 0) (.atom "B")]

theorem reached_secluded : Reached (fun e op => op.Sequential e ∧ op.Faithful e)
    (Op.runAll (.inMemory {}) secluded) :=
  reached_of_succeed (by decide +kernel)

theorem secluded_copied :
    (Op.runAll (.inMemory {}) secluded).store.Reaches (.after 6) [.after 4, .after 3] ∧
      (Op.runAll (.inMemory {}) secluded).store.CopiedInOrder [.after 4, .after 3] ∧
      ∃ copies map e', (Op.runAll (.inMemory {}) secluded).copy ⟨1⟩ (.after 6) [.after 4, .after 3]
          {} .empty = (.ok copies, map, e') ∧
        ∀ x st, e'.store.get? x = some st →
          (Op.runAll (.inMemory {}) secluded).store.get? x = none →
            ∀ d ∈ st.dependencies, map.get? d = none := by
  have hreaches : (Op.runAll (.inMemory {}) secluded).store.Reaches (.after 6)
      [.after 4, .after 3] := by decide +kernel
  have horder : (Op.runAll (.inMemory {}) secluded).store.CopiedInOrder [.after 4, .after 3] := by
    decide +kernel
  have hlasts : ((Op.runAll (.inMemory {}) secluded).copy ⟨1⟩ (.after 6) [.after 4, .after 3] {}
      .empty).1 ≠ .error Engine.exhausted := by decide +kernel
  refine ⟨hreaches, horder, (reached_secluded.copy_complete .empty rfl ?_ ?_ ?_ hreaches ?_
    horder).resolve_left hlasts⟩
  · exact ⟨_, rfl, rfl⟩
  · intro x hx
    rcases List.mem_cons.1 hx with rfl | hx
    · exact ⟨_, rfl, rfl⟩
    · cases List.mem_singleton.1 hx
      exact ⟨_, rfl, rfl⟩
  · decide
  · decide +kernel

/-- The context goes first, when the declaration that it mentions has no copy yet. -/
example :
    (Op.runAll (.inMemory {}) secluded).store.Reaches (.after 6) [.after 3, .after 4] ∧
      (Op.runAll (.inMemory {}) secluded).store.Convex [.after 3, .after 4] ∧
      ((Op.runAll (.inMemory {}) secluded).copy ⟨1⟩ (.after 6) [.after 3, .after 4] {} .empty).1 =
        .error (.structural (.unboundVariable 5 "st:8")) := by
  decide +kernel

def bridged : List Op :=
  [.begin none, .createRoot ⟨1⟩ (.atom "B"), .declare ⟨1⟩ (.after 0) (.atom "A"),
    .openNested ⟨1⟩ (.after 0) (.var (.after 1) .tau),
    .declare ⟨1⟩ (.after 0) (.var (.after 2) (.var (.after 1) .tau)),
    .openNested ⟨1⟩ (.after 0) (.atom "B")]

/-- The context between the declarations is left out. -/
theorem bridged_mention :
    (Op.runAll (.inMemory {}) bridged).store.Reaches (.after 4) [.after 1, .after 3] ∧
      (Op.runAll (.inMemory {}) bridged).store.CopiedInOrder [.after 1, .after 3] ∧
      ((Op.runAll (.inMemory {}) bridged).copy ⟨1⟩ (.after 4) [.after 1, .after 3] {} .empty).1 =
        .ok [.after 5, .after 6] ∧
      (((Op.runAll (.inMemory {}) bridged).copy ⟨1⟩ (.after 4) [.after 1, .after 3] {}
          .empty).2.2.store.get? (.after 6)).map (fun st => st.dependencies.toList) =
        some [.after 1, .after 2] ∧
      ((Op.runAll (.inMemory {}) bridged).copy ⟨1⟩ (.after 4) [.after 1, .after 3] {}
          .empty).2.1.get? (.after 1) = some (.after 5) := by
  decide +kernel

end StatementGraph
