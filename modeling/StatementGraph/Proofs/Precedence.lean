import StatementGraph.Proofs.Operation
import StatementGraph.Proofs.Ordering

namespace StatementGraph

namespace Walk

/-- What an ordering has still to do with a node. -/
inductive Frame (α : Type) where
  | enter (x : α)
  | leave (x : α)

/-- How an ordering goes on from a stack of frames, with no bound on its steps. -/
inductive Unwinds {α : Type} (before : α → List α) :
    List (Frame α) → Progress α → Progress α → Prop where
  | done {p : Progress α} : Unwinds before [] p p
  | skip {x : α} {stack : List (Frame α)} {p q : Progress α} (hx : x ∈ p.entered)
      (h : Unwinds before stack p q) : Unwinds before (.enter x :: stack) p q
  | enter {x : α} {stack : List (Frame α)} {p q : Progress α} (hx : x ∉ p.entered)
      (h : Unwinds before ((before x).map .enter ++ .leave x :: stack)
        { p with entered := x :: p.entered } q) : Unwinds before (.enter x :: stack) p q
  | leave {x : α} {stack : List (Frame α)} {p q : Progress α}
      (h : Unwinds before stack { p with left := p.left ++ [x] } q) :
      Unwinds before (.leave x :: stack) p q

theorem pair_sublist {α : Type} {l : List α} {x y : α} (hx : x ∈ l) (hy : y ∈ l) (hne : x ≠ y) :
    [x, y].Sublist l ∨ [y, x].Sublist l := by
  induction l with
  | nil => cases hx
  | cons a rest ih =>
    rcases List.mem_cons.1 hx with hxa | hx
    · have hrest : y ∈ rest := (List.mem_cons.1 hy).resolve_left fun hya => hne (hxa.trans hya.symm)
      exact Or.inl (hxa ▸ (List.singleton_sublist.2 hrest).cons_cons x)
    · rcases List.mem_cons.1 hy with hya | hy
      · exact Or.inr (hya ▸ (List.singleton_sublist.2 hx).cons_cons y)
      · exact (ih hx hy).imp (.cons a) (.cons a)

/-- In an arrangement what comes before a node stands before it, also where others are left out. -/
theorem Arranged.pair_sublist {α : Type} {before : α → List α} {l : List α} {p : α → Bool} {x y : α}
    (h : Arranged before l) (hy : y ∈ before x) (hne : y ≠ x) (hyl : y ∈ l.filter p)
    (hxl : x ∈ l.filter p) : [y, x].Sublist (l.filter p) := by
  apply (Walk.pair_sublist hyl hxl hne).resolve_right
  intro hback
  exact List.pairwise_iff_forall_sublist.1 (h.sorted.filter p) hback hy

variable {α : Type} [DecidableEq α] {before : α → List α} {nodes l : List α} {depth : Nat}
  {p q : Progress α} {stack : List (Frame α)} {x y : α}

theorem Advances.steps_le {S : α → Prop} (h : Advances S p q) :
    (nodes.filter (· ∉ q.entered)).length ≤ (nodes.filter (· ∉ p.entered)).length := by
  apply List.Sublist.length_le
  apply List.monotone_filter_right
  intro a ha
  simp only [decide_eq_true_iff] at ha ⊢
  exact fun hp => ha (h.entered a hp)

theorem unwinds_foldl
    (hvisit : ∀ p stack x, (nodes.filter (· ∉ p.entered)).length ≤ depth → x ∈ nodes →
      Unwinds before stack (visit before depth p x) q → Unwinds before (.enter x :: stack) p q)
    (hsteps : (nodes.filter (· ∉ p.entered)).length ≤ depth) (hl : ∀ a ∈ l, a ∈ nodes)
    (h : Unwinds before stack (l.foldl (visit before depth) p) q) :
    Unwinds before (l.map .enter ++ stack) p q := by
  induction l generalizing p with
  | nil => exact h
  | cons a rest ih =>
    have hlater := Nat.le_trans (advances_visit_any before depth p a).steps_le hsteps
    apply hvisit p _ a hsteps (hl a List.mem_cons_self)
    exact ih hlater (fun b hb => hl b (List.mem_cons_of_mem _ hb)) h

section Closed

variable (hclosed : ∀ a ∈ nodes, ∀ b ∈ before a, b ∈ nodes)

include hclosed

/-- A visit with steps enough does what the stack does until its node is off it. -/
theorem unwinds_visit (hsteps : (nodes.filter (· ∉ p.entered)).length ≤ depth) (hx : x ∈ nodes)
    (h : Unwinds before stack (visit before depth p x) q) :
    Unwinds before (.enter x :: stack) p q := by
  induction depth generalizing p stack x with
  | zero => exact .skip (mem_of_no_steps hsteps hx) h
  | succ depth ih =>
    rw [visit] at h
    split at h
    case isTrue hin => exact .skip hin h
    case isFalse hnew =>
      have hfewer := length_unseen_lt hx hnew
      apply Unwinds.enter hnew
      exact unwinds_foldl (fun _ _ _ => ih) (by dsimp only; omega) (hclosed x hx) (.leave h)

theorem unwinds_order : ∃ p, Unwinds before (nodes.map .enter) {} p ∧
    p.left = order before nodes := by
  have hrun : Unwinds before (nodes.map .enter ++ []) {}
      (nodes.foldl (visit before nodes.length) {}) :=
    unwinds_foldl (fun _ _ _ => unwinds_visit hclosed) (List.length_filter_le _ _)
      (fun _ ha => ha) .done
  rw [List.append_nil] at hrun
  exact ⟨_, hrun, rfl⟩

theorem sublist_order (hx : x ∈ nodes) (hy : y ∈ before x) :
    [y, x].Sublist (order before nodes) ∨ Leads before y x := by
  by_cases hne : y = x
  · exact Or.inr (hne ▸ .refl)
  · have hmem (a : α) (ha : a ∈ nodes) : a ∈ order before nodes := (mem_order hclosed).2 ha
    apply (pair_sublist (hmem y (hclosed x hx y hy)) (hmem x hx) hne).imp_right
    intro hyx
    exact List.pairwise_iff_forall_sublist.1 (ordered_order hclosed).sorted hyx hy

end Closed

end Walk

namespace Store

variable {s : Store} {ids : List StatementId} {ownersFirst : Bool} {x y : StatementId}

/-- A statement has to follow a member: it depends on it or, with `ownersFirst`, is inside it. -/
def Follows (s : Store) (ids : List StatementId) (ownersFirst : Bool) (x y : StatementId) : Prop :=
  y ∈ ids ∧ ((∃ st, s.get? x = some st ∧ y ∈ st.dependencies) ∨
    ownersFirst = true ∧ Relation.TransGen (fun a b => s.ownerOf a = some b) x y)

theorem within_of_ne (hne : y ≠ x) :
    s.graph.Within x y ↔ Relation.TransGen (fun a b => s.ownerOf a = some b) x y := by
  simp only [ownerOf_eq_graph]
  rw [Graph.Within, Relation.reflTransGen_iff_eq_or_transGen]
  exact or_iff_right hne

theorem mem_predecessors_iff :
    y ∈ s.predecessors ids ownersFirst x ↔ s.Follows ids ownersFirst x y ∧ y ≠ x := by
  by_cases hne : y = x
  · subst hne
    cases hst : s.get? y with
    | none => simp [predecessors_dead hst]
    | some st => simp [mem_predecessors hst, mem_ancestors]
  · cases hst : s.get? x with
    | none =>
      have hno : ¬Relation.TransGen (fun a b => s.ownerOf a = some b) x y := by
        intro h
        obtain ⟨b, hb, -⟩ := Relation.TransGen.head'_iff.1 h
        simp [ownerOf, hst] at hb
      simp [predecessors_dead hst, Follows, hst, hno]
    | some st => simp [mem_predecessors hst, mem_ancestors, within_of_ne hne, Follows, hst, hne]

theorem mem_of_mem_predecessors (h : y ∈ s.predecessors ids ownersFirst x) : y ∈ ids :=
  (mem_predecessors_iff.1 h).1.1

theorem nodup_dependencySorted : (s.dependencySorted ids ownersFirst).Nodup :=
  (Walk.ordered_order fun _ _ _ => mem_of_mem_predecessors).nodup

/-- Each id is listed once, after all that it has to follow but for those on a cycle with it. -/
theorem dependencySorted_precedence (s : Store) (ids : List StatementId) (ownersFirst : Bool) :
    (∃ p, Walk.Unwinds (s.predecessors ids ownersFirst) (ids.map .enter) {} p ∧
      p.left = s.dependencySorted ids ownersFirst) ∧
    (s.dependencySorted ids ownersFirst).Nodup ∧
    (∀ x, x ∈ s.dependencySorted ids ownersFirst ↔ x ∈ ids) ∧
    (∀ x ∈ ids, ∀ y, s.Follows ids ownersFirst x y →
      [y, x].Sublist (s.dependencySorted ids ownersFirst) ∨
        Relation.TransGen (s.Follows ids ownersFirst) y x) ∧
    ((∀ x ∈ ids, ¬Relation.TransGen (s.Follows ids ownersFirst) x x) →
      ∀ x ∈ ids, ∀ y, s.Follows ids ownersFirst x y →
        [y, x].Sublist (s.dependencySorted ids ownersFirst)) := by
  have hclosed : ∀ a ∈ ids, ∀ b ∈ s.predecessors ids ownersFirst a, b ∈ ids :=
    fun _ _ _ => mem_of_mem_predecessors
  have hleads (x y : StatementId) (h : Walk.Leads (s.predecessors ids ownersFirst) x y) :
      Relation.ReflTransGen (s.Follows ids ownersFirst) x y :=
    Relation.ReflTransGen.mono (fun _ _ hb => (mem_predecessors_iff.1 hb).1) _ _ h
  have hsorted (x : StatementId) (hx : x ∈ ids) (y : StatementId)
      (hy : s.Follows ids ownersFirst x y) :
      [y, x].Sublist (s.dependencySorted ids ownersFirst) ∨
        Relation.TransGen (s.Follows ids ownersFirst) y x := by
    by_cases hne : y = x
    · subst hne
      exact Or.inr (.single hy)
    · apply (Walk.sublist_order hclosed hx (mem_predecessors_iff.2 ⟨hy, hne⟩)).imp_right
      intro hback
      exact (Relation.reflTransGen_iff_eq_or_transGen.1 (hleads y x hback)).resolve_left
        (Ne.symm hne)
  have htopological (hacyclic : ∀ x ∈ ids, ¬Relation.TransGen (s.Follows ids ownersFirst) x x)
      (x : StatementId) (hx : x ∈ ids) (y : StatementId) (hy : s.Follows ids ownersFirst x y) :
      [y, x].Sublist (s.dependencySorted ids ownersFirst) :=
    (hsorted x hx y hy).resolve_right fun hback => hacyclic x hx (.head hy hback)
  exact ⟨Walk.unwinds_order hclosed, nodup_dependencySorted, fun _ => mem_dependencySorted, hsorted,
    htopological⟩

/-- Owners in a circle, dependencies in a circle, and a declaration whose owner is gone. -/
def tangle : Store :=
  let record (id owner : Nat) (dependencies : List StatementId) (kind : StatementKind) :
      Statement :=
    { id := .after id, owner := some (.after owner), term := .tau, proved := false
      dependencies := IdSet.ofList dependencies, identifier := none, kind }
  [record 0 1 [] (.context ⟨.nested, [], .tau⟩), record 1 0 [] (.context ⟨.nested, [], .tau⟩),
    record 2 0 [.after 3, .after 4] (.declaration .tau),
    record 3 1 [.after 2] (.declaration .tau),
    record 4 8 [.after 7] (.declaration .tau)].foldl write {}

theorem tangle_precedence :
    let ids := [2, 8, 3, 2, 4, 0, 1].map StatementId.after
    tangle.dependencySorted ids true = [0, 1, 3, 8, 4, 2].map StatementId.after ∧
      tangle.Follows ids true (.after 3) (.after 2) ∧
      Relation.TransGen (tangle.Follows ids true) (.after 2) (.after 3) := by
  intro ids
  have horder : tangle.dependencySorted ids true = [0, 1, 3, 8, 4, 2].map StatementId.after := by
    decide +kernel
  have hfollows : tangle.Follows ids true (.after 3) (.after 2) :=
    ⟨by decide, Or.inl ⟨_, rfl, by decide⟩⟩
  have hsorted := (dependencySorted_precedence tangle ids true).2.2.2.1 _ (by decide) _ hfollows
  rw [horder] at hsorted
  exact ⟨horder, hfollows, hsorted.resolve_left (by decide)⟩

end Store

end StatementGraph
