import StatementGraph.Proofs.Containment
import StatementGraph.Proofs.History

namespace StatementGraph

namespace Walk

/-- A node leads to another one: what comes before it, what comes before that, and so on. -/
def Leads {α : Type} (before : α → List α) : α → α → Prop :=
  Relation.ReflTransGen fun a b => b ∈ before a

theorem Leads.rank_le {α : Type} {before : α → List α} {nodes : List α} {rank : α → Nat} {a b : α}
    (h : Leads before a b) (hclosed : ∀ a ∈ nodes, ∀ b ∈ before a, b ∈ nodes)
    (hrank : ∀ a ∈ nodes, ∀ b ∈ before a, rank b < rank a) (ha : a ∈ nodes) :
    b ∈ nodes ∧ rank b ≤ rank a := by
  induction h with
  | refl => exact ⟨ha, Nat.le_refl _⟩
  | tail _ hstep ih =>
    obtain ⟨hmem, hle⟩ := ih
    exact ⟨hclosed _ hmem _ hstep, Nat.le_trans (Nat.le_of_lt (hrank _ hmem _ hstep)) hle⟩

/-- No node twice, and each after all that comes before it and does not lead back to it. -/
structure Ordered {α : Type} (before : α → List α) (l : List α) : Prop where
  nodup : l.Nodup
  placed : ∀ a ∈ l, ∀ b ∈ before a, b ∈ l ∨ Leads before b a
  sorted : l.Pairwise fun a b => b ∈ before a → Leads before b a

theorem Ordered.snoc {α : Type} {before : α → List α} {l : List α} {x : α}
    (h : Ordered before l) (hx : x ∉ l) (hbefore : ∀ b ∈ before x, b ∈ l ∨ Leads before b x) :
    Ordered before (l ++ [x]) where
  nodup := by
    rw [List.nodup_append]
    refine ⟨h.nodup, List.nodup_singleton x, ?_⟩
    intro a ha b hb hab
    rw [hab, List.mem_singleton.1 hb] at ha
    exact hx ha
  placed a ha b hb := by
    rcases List.mem_append.1 ha with ha | ha
    · exact (h.placed a ha b hb).imp_left (List.mem_append_left _)
    · rw [List.mem_singleton.1 ha] at hb ⊢
      exact (hbefore b hb).imp_left (List.mem_append_left _)
  sorted := by
    rw [List.pairwise_append]
    refine ⟨h.sorted, List.pairwise_singleton _ x, ?_⟩
    intro a ha b hb hba
    rw [List.mem_singleton.1 hb] at hba ⊢
    exact (h.placed a ha x hba).resolve_left hx

/-- No node twice, and with each node all that comes before it, further to the left. -/
structure Arranged {α : Type} (before : α → List α) (l : List α) : Prop where
  nodup : l.Nodup
  placed : ∀ a ∈ l, ∀ b ∈ before a, b ∈ l
  sorted : l.Pairwise fun a b => b ∉ before a

variable {α : Type} [DecidableEq α] {before : α → List α} {nodes l : List α} {rank : α → Nat}
  {above : α → Prop} {depth : Nat} {p q : Progress α} {x : α}

/-- The nodes entered and not left are above those being visited, and steps are left for all. -/
structure Underway (before : α → List α) (nodes : List α) (above : α → Prop) (depth : Nat)
    (p : Progress α) : Prop where
  ordered : Ordered before p.left
  entered : ∀ a ∈ p.left, a ∈ p.entered
  path : ∀ a ∈ p.entered, a ∈ p.left ∨ above a
  steps : (nodes.filter (· ∉ p.entered)).length ≤ depth

theorem advances_visit_any (before : α → List α) (depth : Nat) (p : Progress α) (x : α) :
    Advances (fun _ => True) p (visit before depth p x) :=
  advances_visit (fun _ _ _ _ => trivial) depth p trivial

theorem length_unseen_lt {seen : List α} (hx : x ∈ nodes) (hnew : x ∉ seen) :
    (nodes.filter (· ∉ x :: seen)).length < (nodes.filter (· ∉ seen)).length := by
  have hfilter : nodes.filter (· ∉ x :: seen) = (nodes.filter (· ∉ seen)).filter (· ≠ x) := by
    rw [List.filter_filter]
    apply List.filter_congr
    intro a _
    simp [not_or]
  rw [hfilter]
  apply List.length_filter_lt_length_iff_exists.2
  exact ⟨x, List.mem_filter.2 ⟨hx, by simpa using hnew⟩, by simp⟩

theorem mem_of_no_steps {seen : List α} (h : (nodes.filter (· ∉ seen)).length ≤ 0)
    (hx : x ∈ nodes) : x ∈ seen := by
  by_contra hnew
  exact Nat.not_lt_zero _ (Nat.lt_of_lt_of_le (length_unseen_lt hx hnew) h)

theorem Underway.enter (h : Underway before nodes above (depth + 1) p) (hx : x ∈ nodes)
    (hnew : x ∉ p.entered) (habove : ∀ a, above a → Leads before a x) :
    Underway before nodes (Leads before · x) depth { p with entered := x :: p.entered } where
  ordered := h.ordered
  entered a ha := List.mem_cons_of_mem _ (h.entered a ha)
  path a ha := by
    rcases List.mem_cons.1 ha with rfl | ha
    · exact Or.inr .refl
    · exact (h.path a ha).imp_right (habove a)
  steps := by
    apply Nat.le_of_lt_succ
    exact Nat.lt_of_lt_of_le (length_unseen_lt hx hnew) h.steps

/-- Leaving a node once all that comes before it has been left or leads back to it. -/
theorem Underway.leave (h : Underway before nodes above (depth + 1) p) (hnew : x ∉ p.entered)
    (hq : Underway before nodes (Leads before · x) depth q)
    (hadvances : Advances (fun _ => True) { p with entered := x :: p.entered } q)
    (hbefore : ∀ b ∈ before x, b ∈ q.left ∨ Leads before b x) :
    Underway before nodes above (depth + 1) { q with left := q.left ++ [x] } where
  ordered := by
    apply hq.ordered.snoc _ hbefore
    intro hx
    exact hnew (h.entered x (hadvances.frozen x List.mem_cons_self hx))
  entered a ha := by
    rcases List.mem_append.1 ha with ha | ha
    · exact hq.entered a ha
    · rw [List.mem_singleton.1 ha]
      exact hadvances.entered x List.mem_cons_self
  path a ha := by
    rw [List.mem_append, List.mem_singleton]
    rcases hadvances.balanced a ha with ha | ha
    · rcases List.mem_cons.1 ha with rfl | ha
      · exact Or.inl (Or.inr rfl)
      · exact (h.path a ha).imp_left fun ha => Or.inl (hadvances.left a ha)
    · exact Or.inl (Or.inl ha)
  steps := Nat.le_succ_of_le hq.steps

/-- Visiting nodes one after the other, given what visiting one of them does. -/
theorem Underway.foldl (h : Underway before nodes above depth p)
    (hvisit : ∀ q, Underway before nodes above depth q → ∀ a ∈ l,
      Underway before nodes above depth (visit before depth q a) ∧
        (a ∈ (visit before depth q a).left ∨ above a)) :
    Underway before nodes above depth (l.foldl (visit before depth) p) ∧
      ∀ a ∈ l, a ∈ (l.foldl (visit before depth) p).left ∨ above a := by
  induction l generalizing p with
  | nil => exact ⟨h, fun _ ha => by cases ha⟩
  | cons b rest ih =>
    obtain ⟨hone, hb⟩ := hvisit p h b List.mem_cons_self
    obtain ⟨hrest, hall⟩ := ih hone fun q hq a ha => hvisit q hq a (List.mem_cons_of_mem _ ha)
    refine ⟨hrest, ?_⟩
    intro a ha
    rcases List.mem_cons.1 ha with rfl | ha
    · have hmore := advances_foldl (l := rest)
        (fun q b _ => advances_visit_any before depth q b)
      exact hb.imp_left ((hmore _).left a)
    · exact hall a ha

section Closed

variable (hclosed : ∀ a ∈ nodes, ∀ b ∈ before a, b ∈ nodes)

include hclosed

/-- Visiting a node that all on the way lead to places it, unless it is on the way itself. -/
theorem Underway.visit (h : Underway before nodes above depth p) (hx : x ∈ nodes)
    (habove : ∀ a, above a → Leads before a x) :
    Underway before nodes above depth (visit before depth p x) ∧
      (x ∈ (Walk.visit before depth p x).left ∨ above x) := by
  induction depth generalizing p x above with
  | zero => exact ⟨h, h.path x (mem_of_no_steps h.steps hx)⟩
  | succ depth ih =>
    rw [Walk.visit]
    split
    case isTrue hin => exact ⟨h, h.path x hin⟩
    case isFalse hnew =>
      obtain ⟨hinside, hall⟩ := (h.enter hx hnew habove).foldl (l := before x) fun q hq b hb =>
        ih hq (hclosed x hx b hb) fun a ha => ha.tail hb
      have hadvances := advances_foldl (l := before x)
        (fun q b _ => advances_visit_any before depth q b)
        { p with entered := x :: p.entered }
      exact ⟨h.leave hnew hinside hadvances hall,
        Or.inl (List.mem_append_right _ List.mem_cons_self)⟩

theorem ordered_order : Ordered before (order before nodes) := by
  have hstart : Underway before nodes (fun _ => False) nodes.length {} := by
    refine ⟨⟨List.nodup_nil, ?_, .nil⟩, ?_, ?_, List.length_filter_le _ _⟩ <;>
      exact fun _ ha => by cases ha
  have hall := hstart.foldl (l := nodes) fun q hq a ha =>
    hq.visit hclosed ha fun _ habove => habove.elim
  exact hall.1.ordered

variable (rank) in
theorem arranged_order (hrank : ∀ a ∈ nodes, ∀ b ∈ before a, rank b < rank a) :
    Arranged before (order before nodes) := by
  have hordered := ordered_order hclosed
  have hback (a : α) (ha : a ∈ order before nodes) (b : α) (hb : b ∈ before a) :
      ¬Leads before b a := by
    intro hleads
    have hnode := (mem_order hclosed).1 ha
    have hle := (hleads.rank_le hclosed hrank (hclosed a hnode b hb)).2
    exact Nat.not_lt.2 hle (hrank a hnode b hb)
  refine ⟨hordered.nodup, ?_, ?_⟩
  · exact fun a ha b hb => (hordered.placed a ha b hb).resolve_right (hback a ha b hb)
  · exact hordered.sorted.imp_of_mem fun {a b} ha _ hab hb => hback a ha b hb (hab hb)

end Closed

theorem foldl_visit_met (h : ∀ b ∈ l, b ∈ p.entered) : l.foldl (visit before depth) p = p := by
  induction l with
  | nil => rfl
  | cons b l ih =>
    have hmet : visit before depth p b = p := by
      cases depth with
      | zero => rfl
      | succ depth => rw [visit, if_pos (h b List.mem_cons_self)]
    rw [List.foldl_cons, hmet]
    exact ih fun a ha => h a (List.mem_cons_of_mem _ ha)

theorem Arranged.order_eq (h : Arranged before nodes) : order before nodes = nodes := by
  have hrun (p : Progress α) (done rest : List α) (hnodes : nodes = done ++ rest)
      (hp : p.left = done) (hentered : ∀ a, a ∈ p.entered ↔ a ∈ done) :
      (rest.foldl (visit before nodes.length) p).left = nodes := by
    induction rest generalizing done p with
    | nil => rw [List.foldl_nil, hp, hnodes, List.append_nil]
    | cons x rest ih =>
      obtain ⟨hdone, hrest, hlater⟩ := List.pairwise_append.1 (hnodes ▸ h.sorted)
      have hnew : x ∉ p.entered := by
        rw [hentered]
        intro hx
        exact (List.nodup_append.1 (hnodes ▸ h.nodup)).2.2 x hx x List.mem_cons_self rfl
      have hmet (b : α) (hb : b ∈ before x) : b ∈ x :: p.entered := by
        have hmem := h.placed x (by simp [hnodes]) b hb
        rw [hnodes, List.mem_append, List.mem_cons] at hmem
        rw [List.mem_cons, hentered]
        rcases hmem with hmem | rfl | hmem
        · exact Or.inr hmem
        · exact Or.inl rfl
        · exact absurd hb ((List.pairwise_cons.1 hrest).1 b hmem)
      obtain ⟨n, hn⟩ : ∃ n, nodes.length = n + 1 := ⟨done.length + rest.length, by
        rw [hnodes, List.length_append, List.length_cons, Nat.add_assoc]⟩
      have hvisit : visit before nodes.length p x = ⟨x :: p.entered, p.left ++ [x]⟩ := by
        rw [hn, visit, if_neg hnew, foldl_visit_met hmet]
      rw [List.foldl_cons, hvisit]
      apply ih _ (done ++ [x]) (by rw [hnodes, List.append_assoc, List.singleton_append])
      · rw [hp]
      · intro a
        simp [hentered, or_comm]
  exact hrun {} [] nodes rfl rfl fun a => Iff.rfl

end Walk

namespace Store

variable {s : Store} {H : Graph} {D : Discipline} {ids : List StatementId} {ownersFirst : Bool}
  {top x y : StatementId} {st : Statement}

theorem mem_predecessors (hst : s.get? x = some st) : y ∈ s.predecessors ids ownersFirst x ↔
    y ∈ ids ∧ (y ∈ st.dependencies ∧ y ≠ x ∨ ownersFirst = true ∧ y ∈ s.ancestors x) := by
  rw [predecessors, hst]
  dsimp only
  split
  case isTrue hfirst => grind [IdSet.mem_toList]
  case isFalse hfirst => grind [IdSet.mem_toList]

theorem predecessors_dead (hx : s.get? x = none) : s.predecessors ids ownersFirst x = [] := by
  rw [predecessors, hx]

/-- What has to come before a statement has a smaller id: dependencies and owners do. -/
theorem predecessor_lt (hH : H.Lawful D) (hs : s.graph.Sub H) (hr : s.graph.Rooted)
    (hy : y ∈ s.predecessors ids ownersFirst x) : y ∈ ids ∧ y < x := by
  have hf := hH.forest_of_sub hs hr
  cases hst : s.get? x with
  | none =>
    rw [predecessors_dead hst] at hy
    cases hy
  | some st =>
    obtain ⟨hmem, hbefore⟩ := (mem_predecessors hst).1 hy
    refine ⟨hmem, ?_⟩
    rcases hbefore with ⟨hd, -⟩ | ⟨-, ha⟩
    · exact ((hH x st.content (hs x _ (graph_of_get? hst))).dependency y hd).1
    · obtain ⟨hne, hw⟩ := mem_ancestors.1 ha
      exact (hf.within_le hw).resolve_left hne

theorem arranged_dependencySorted (hH : H.Lawful D) (hs : s.graph.Sub H)
    (hr : s.graph.Rooted) :
    Walk.Arranged (s.predecessors ids ownersFirst) (s.dependencySorted ids ownersFirst) := by
  apply Walk.arranged_order StatementId.raw
  · exact fun x _ y hy => (predecessor_lt hH hs hr hy).1
  · exact fun x _ y hy => (predecessor_lt hH hs hr hy).2

theorem dependencySorted_ascending (hH : H.Lawful D) (hs : s.graph.Sub H) (hr : s.graph.Rooted)
    (hids : ids.Pairwise (· < ·)) : s.dependencySorted ids ownersFirst = ids := by
  apply Walk.Arranged.order_eq
  refine ⟨hids.imp fun {a b} hlt he => ?_, fun x _ y hy => (predecessor_lt hH hs hr hy).1,
    hids.imp fun {a b} hlt hb => ?_⟩
  · exact Nat.lt_irrefl _ (he ▸ hlt)
  · exact Nat.lt_asymm hlt (predecessor_lt hH hs hr hb).2

theorem sortedLocals_eq (hH : H.Lawful D) (hs : s.graph.Sub H) (hr : s.graph.Rooted)
    (hst : s.requireContext x = .ok st) : s.sortedLocals x = .ok (s.localsOf x) := by
  have hids : (s.localsOf x).Pairwise (· < ·) := IdSet.ascending _
  rw [sortedLocals, hst]
  change Except.ok _ = _
  rw [dependencySorted_ascending hH hs hr hids]

end Store

end StatementGraph
