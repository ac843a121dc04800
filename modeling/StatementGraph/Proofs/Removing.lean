import StatementGraph.Proofs.Erasing

namespace StatementGraph

namespace Removal

open Engine Store

variable {t : TransactionId} {H : Graph} {D : Discipline} {e : Engine} {r : Removal}
  {top x y : StatementId} {st : Statement} {l seeds : List StatementId}

theorem Cut.forest (h : Cut t H e r) (hs : Sound D t H e) (hr : r.engine.store.graph.Rooted) :
    r.engine.store.graph.Forest :=
  hs.lawful.forest_of_sub (h.sub hs) hr

theorem rooted_removeTree (hr : r.engine.store.graph.Rooted)
    (hleft : ∀ y st, (r.removeTree t top).engine.store.get? y = some st ↔
      r.engine.store.get? y = some st ∧ ¬r.engine.store.graph.Within y top) :
    (r.removeTree t top).engine.store.graph.Rooted := by
  intro y c o hy ho
  obtain ⟨st, hst, rfl⟩ := graph_eq_some.1 hy
  obtain ⟨hst, hout⟩ := (hleft y st).1 hst
  obtain ⟨c, hc⟩ := hr y st.content o (graph_of_get? hst) ho
  obtain ⟨so, hso, rfl⟩ := graph_eq_some.1 hc
  refine ⟨so.content, graph_of_get? ((hleft o so).2 ⟨hso, fun hw => hout ?_⟩)⟩
  exact .head (Graph.ownerOf_eq.2 ⟨st.content, graph_of_get? hst, ho⟩) hw

theorem sub_removeTree (hleft : ∀ y st, (r.removeTree t top).engine.store.get? y = some st ↔
      r.engine.store.get? y = some st ∧ ¬r.engine.store.graph.Within y top) :
    (r.removeTree t top).engine.store.graph.Sub r.engine.store.graph := by
  intro y c hy
  obtain ⟨st, hst, rfl⟩ := graph_eq_some.1 hy
  exact graph_of_get? ((hleft y st).1 hst).1

theorem left_after_removeTree {tops : List StatementId} (hr : r.engine.store.graph.Rooted)
    (hleft : ∀ y st, (r.removeTree t top).engine.store.get? y = some st ↔
      r.engine.store.get? y = some st ∧ ¬r.engine.store.graph.Within y top) :
    ((r.removeTree t top).engine.store.get? y = some st ∧
        ∀ x ∈ tops, ¬(r.removeTree t top).engine.store.graph.Within y x) ↔
      r.engine.store.get? y = some st ∧ ∀ x ∈ top :: tops, ¬r.engine.store.graph.Within y x := by
  have hr' := rooted_removeTree hr hleft
  rw [hleft, List.forall_mem_cons, and_assoc]
  refine and_congr_right fun hst => and_congr_right fun hout => ?_
  have hlive := graph_of_get? ((hleft y st).2 ⟨hst, hout⟩)
  exact forall₂_congr fun x _ => not_congr
    ⟨(sub_removeTree hleft).within, fun hw => ((sub_removeTree hleft).within_of hr' hlive hw).1⟩

theorem Cut.removeTrees (h : Cut t H e r) (hs : Sound D t H e)
    (hr : r.engine.store.graph.Rooted) (l : List StatementId)
    (hl : ∀ x ∈ l, ∀ st, r.engine.store.get? x = some st → st.isAssumption = false) :
    Cut t H e (l.foldl (Removal.removeTree t) r) ∧
      (l.foldl (Removal.removeTree t) r).engine.store.graph.Rooted ∧
      ∀ y st, (l.foldl (Removal.removeTree t) r).engine.store.get? y = some st ↔
        r.engine.store.get? y = some st ∧ ∀ x ∈ l, ¬r.engine.store.graph.Within y x := by
  induction l generalizing r with
  | nil => exact ⟨h, hr, fun y st => by simp⟩
  | cons top rest ih =>
    obtain ⟨hone, hleft⟩ := h.removeTree hs hr (hl top List.mem_cons_self)
    have hr' := rooted_removeTree hr hleft
    obtain ⟨hcut, hroots, hrest⟩ := ih hone hr' fun x hx st hst =>
      hl x (List.mem_cons_of_mem _ hx) st ((hleft x st).1 hst).1
    refine ⟨hcut, hroots, fun y st => ?_⟩
    rw [List.foldl_cons, hrest, left_after_removeTree hr hleft]

/-- The contexts that a removed statement may have been solving are found. -/
theorem mem_solved {o : StatementId} (hst : st ∈ r.gone) (hproved : st.proved = true)
    (howner : st.owner = some o) (ho : r.engine.store.contains o = true)
    (hx : x ∈ r.engine.store.contextsBelowByConsequent o st.term) : x ∈ r.solved := by
  -- along the fold, the context is found already or its solver is still to come
  have hstart : x ∈ IdSet.empty ∨ st ∈ r.gone := Or.inr hst
  rw [solved]
  generalize r.gone = gone at hstart
  generalize IdSet.empty = start at hstart
  induction gone generalizing start with
  | nil => exact hstart.resolve_right List.not_mem_nil
  | cons first rest ih =>
    refine ih _ ?_
    rw [List.mem_cons] at hstart
    rcases hstart with hin | rfl | hrest
    · refine Or.inl ?_
      dsimp only
      split
      · split
        · exact IdSet.mem_insertAll.2 (Or.inr hin)
        · exact hin
      · exact hin
    · refine Or.inl ?_
      simp only [hproved, howner, ho, if_true]
      exact IdSet.mem_insertAll.2 (Or.inl hx)
    · exact Or.inr hrest

theorem Cut.proved_iff (h : Cut t H e r) (hs : Sound D t H e) (hc : r.engine.store.graph.Closed)
    (hseeds : ∀ y x sy c, e.store.graph.Solves y x → e.store.get? y = some sy →
      sy.proved = true → r.engine.store.graph y = none → r.engine.store.graph x = some c →
        x ∈ seeds)
    (hx : x ∉ r.engine.store.region seeds) :
    r.engine.store.Proved x ↔ r.engine.store.graph.Derivable x := by
  have hi := h.indexed
  constructor
  · intro hproved
    obtain ⟨st, hst, hflag⟩ := Store.proved_iff.1 hproved
    have hderivable : e.store.graph.Derivable x :=
      hs.maintained.proved_iff.1 (Store.proved_iff.2 ⟨st, h.kept x st hst, hflag⟩)
    -- a derivation outside the region uses nothing that is gone
    refine hderivable.restrict (R := (· ∈ r.engine.store.region seeds)) h.graph_sub hc
      (fun x c d hx hd hR => region_dependent hi hx hd hR)
      (fun y x hs hR => region_solved hi hs hR) (fun y z c hz hsolves hy hgone => ?_)
      (graph_of_get? hst) hx
    obtain ⟨sy, hsy, hflag⟩ := Store.proved_iff.1 (hs.maintained.proved_iff.2 hy)
    exact (mem_region hi).2 ⟨z, hseeds y z sy c hsolves hsy hflag hgone hz, .refl⟩
  · intro hderivable
    obtain ⟨c, hc⟩ := hderivable.live
    obtain ⟨st, hst, -⟩ := graph_eq_some.1 hc
    have hproved := hs.maintained.proved_iff.2 (hderivable.mono h.graph_sub)
    obtain ⟨st', hst', hflag⟩ := Store.proved_iff.1 hproved
    cases (h.kept x st hst).symm.trans hst'
    exact Store.proved_iff.2 ⟨st, hst, hflag⟩

theorem Cut.solved_of_gone (h : Cut t H e r) (hr : r.engine.store.graph.Rooted) {c : Content}
    (hsolves : e.store.graph.Solves y x) (hy : e.store.get? y = some st)
    (hflag : st.proved = true) (hgone : r.engine.store.graph y = none)
    (hx : r.engine.store.graph x = some c) : x ∈ r.solved := by
  obtain ⟨-, ⟨cy, o, hcy, ho, hw⟩, cx, cy', data, hcx, hk, hcy', hterm⟩ := hsolves
  cases hcy.symm.trans hcy'
  cases (graph_of_get? hy).symm.trans hcy
  cases (h.graph_sub x c hx).symm.trans hcx
  have hmem : st ∈ r.gone := by
    refine (h.lost y st hy).resolve_left fun hlive => ?_
    rw [graph_of_get? hlive] at hgone
    cases hgone
  obtain ⟨hw', co, hco⟩ := h.graph_sub.within_of hr hx hw
  obtain ⟨so, hso, -⟩ := graph_eq_some.1 hco
  refine mem_solved hmem hflag ho (Table.contains_iff.2 ⟨so, hso⟩) ?_
  rw [Term.beq_comm] at hterm
  exact (mem_contextsBelowByConsequent h.indexed).2 ⟨⟨c, data, hx, hk, hterm⟩, hw'⟩

theorem Cut.maintained {e' : Engine} (h : Cut t H e r) (hs : Sound D t H e)
    (hc : r.engine.store.graph.Closed) (hr : r.engine.store.Reflagged e'.store)
    (hsettled : e'.store.Settled) : e'.store.Maintained H := by
  refine hsettled.maintained ?_ (hr.graph ▸ hc) fun x a ha => ?_
  · rw [hr.graph]
    exact h.sub hs
  · have ha : r.engine.store.authority? x = some a := by rwa [authority?, hr.authorities] at ha
    obtain ⟨ha, st, hst⟩ := h.authority x a ha
    exact ⟨(hs.maintained.authority ha).1, st.content, hr.graph ▸ graph_of_get? hst⟩

theorem Cut.closed (h : Cut t H e r) (hs : Sound D t H e) (hr : r.engine.store.graph.Rooted)
    (hdep : ∀ x st d, r.engine.store.get? x = some st → d ∈ st.dependencies →
      ∃ sd, r.engine.store.get? d = some sd) : r.engine.store.graph.Closed where
  owner := hr
  dependency x c d hx hd := by
    obtain ⟨st, hst, rfl⟩ := graph_eq_some.1 hx
    obtain ⟨sd, hsd⟩ := hdep x st d hst hd
    exact ⟨sd.content, graph_of_get? hsd⟩
  assumption x c data a hx hk ha := by
    obtain ⟨st, hst, rfl⟩ := graph_eq_some.1 hx
    obtain ⟨sa, hsa, -⟩ := h.assumption hs hst (Statement.mem_assumptions.2 ⟨data, hk, ha⟩)
    exact ⟨sa.content, graph_of_get? hsa⟩

end Removal

namespace Engine

open Store Removal

variable {t : TransactionId} {H : Graph} {D : Discipline} {e e' : Engine} {r : Removal}
  {α β : Type} {batch : DeletionBatch}

/-- The store stays maintained, and the transaction keeps the statements that are gone. -/
structure Removes (t : TransactionId) (H : Graph) (e e' : Engine) (batch : DeletionBatch) :
    Prop where
  maintained : e'.store.Maintained H
  allocator : e'.store.allocator = e.store.allocator
  left : e'.store.graph.Sub e.store.graph
  names : ∀ x c, e'.store.graph x = some c → e'.store.nameOf x = e.store.nameOf x
  records : ∀ d ∈ batch, d.Records e.store
  swept : ∀ x c, e.store.graph x = some c →
    e'.store.graph x = some c ∨ x ∈ batch.flatMap Deleted.ids
  buried : H.Buries e'.store.graph [batch]
  dug : ∀ x ∈ batch.flatMap Deleted.ids, ∃ c, e.store.graph x = some c
  recorded : ∃ e₁, Evolves t e e₁ ∧ e' = e₁.onTransaction t (·.addDeletions batch)

theorem removes_of_cut {e₁ : Engine} (h : Cut t H e r) (hs : Sound D t H e)
    (hc : r.engine.store.graph.Closed) (hr : r.engine.store.Reflagged e₁.store)
    (hsettled : e₁.store.Settled) (he : Evolves t r.engine e₁) :
    Removes t H e (e₁.onTransaction t (·.addDeletions r.batch)) r.batch := by
  refine ⟨?_, ?_, ?_, fun x c hx => ?_, h.records, fun x c hx => ?_, ?_, fun x hx => ?_, e₁,
    h.evolves.trans he, rfl⟩ <;> try rw [store_onTransaction] at *
  · exact h.maintained hs hc hr hsettled
  · exact hr.allocator.trans h.allocator
  · rw [hr.graph]
    exact h.graph_sub
  · rw [hr.graph] at hx
    obtain ⟨st, hst, -⟩ := graph_eq_some.1 hx
    rw [hr.names, nameOf, nameOf, hst, h.kept x st hst]
  · obtain ⟨st, hst, rfl⟩ := graph_eq_some.1 hx
    rw [hr.graph]
    exact (h.swept x st hst).imp_left graph_of_get?
  · rw [hr.graph]
    exact h.buried
  · obtain ⟨st, hst⟩ := h.dug x hx
    exact ⟨st.content, graph_of_get? hst⟩

theorem removes_of_unsolved (h : Cut t H e r) (hs : Sound D t H e)
    (hc : r.engine.store.graph.Closed)
    (hnone : ∀ y x sy c, e.store.graph.Solves y x → e.store.get? y = some sy → sy.proved = true →
      r.engine.store.graph y = none → r.engine.store.graph x = some c → False) :
    Removes t H e (r.record t) r.batch := by
  have hf := h.forest hs hc.owner
  refine removes_of_cut h hs hc (.refl _) ?_ (.refl t _)
  refine settled_of_proved_iff h.indexed hf (hs.lawful.tracked_of_sub (h.sub hs)) fun x => ?_
  have hregion : x ∉ r.engine.store.region [] := by
    intro hx
    obtain ⟨a, ha, -⟩ := (mem_region h.indexed).1 hx
    cases ha
  refine h.proved_iff hs hc (fun y x sy c hsolves hy hflag hgone hx => ?_) hregion
  exact (hnone y x sy c hsolves hy hflag hgone hx).elim

theorem recheck_fields : (r.recheck t).batch = r.batch ∧ (r.recheck t).gone = r.gone := by
  rw [recheck]
  split <;> exact ⟨rfl, rfl⟩

theorem reflagged_recheck (hi : r.engine.store.Indexed) :
    r.engine.store.Reflagged (r.recheck t).engine.store := by
  rw [recheck]
  split
  case isTrue => exact .refl _
  case isFalse => exact reflagged_rederive hi

theorem graph_recheck (hi : r.engine.store.Indexed) :
    (r.recheck t).engine.store.graph = r.engine.store.graph := (reflagged_recheck hi).graph

theorem removes_recheck (h : Cut t H e r) (hs : Sound D t H e)
    (hc : r.engine.store.graph.Closed) :
    Removes t H e ((r.recheck t).record t) (r.recheck t).batch := by
  rw [recheck_fields.1, recheck]
  split
  case isTrue hempty =>
    refine removes_of_unsolved h hs hc fun y x sy c hsolves hy hflag hgone hx => ?_
    exact IdSet.isEmpty_iff.1 hempty x (h.solved_of_gone hc.owner hsolves hy hflag hgone hx)
  case isFalse =>
    have hsettled : (r.engine.rederive t r.solved.toList).2.store.Settled :=
      settled_rederive h.indexed (h.forest hs hc.owner) (hs.lawful.tracked_of_sub (h.sub hs))
        fun x hx => h.proved_iff hs hc (fun y x sy c hsolves hy hflag hgone hx =>
          h.solved_of_gone hc.owner hsolves hy hflag hgone hx) hx
    have hremoves := removes_of_cut h hs hc (reflagged_rederive h.indexed) hsettled evolves_rederive
    exact hremoves

/-- An action that grows, and then may remove statements. -/
def Sheds (D : Discipline) (t : TransactionId) (H : Graph) (e : Engine) (m : Action α) : Prop :=
  ∀ r e', m.perform e = (r, e') → r = .error exhausted ∨ Answered r ∧ ∃ H' e₀, Sound D t H' e₀ ∧
    Grown t H e H' e₀ ∧ (e' = e₀ ∨ ∃ batch, Removes t H' e₀ e' batch)

theorem sheds_of_grows {m : Action α} {Q : Graph → Engine → α → Prop} (h : Grows D t H e m Q) :
    Sheds D t H e m := by
  intro r e' hrun
  cases r with
  | ok a =>
    obtain ⟨H', hs, hg, -⟩ := h.1 a e' hrun
    exact Or.inr ⟨answered_ok a, H', e', hs, hg, Or.inl rfl⟩
  | error f =>
    rcases h.2 f e' hrun with rfl | ⟨hf, H', hs, hg⟩
    · exact Or.inl rfl
    · exact Or.inr ⟨answered_error hf, H', e', hs, hg, Or.inl rfl⟩

/-- An action that carries a removal out, from an engine with the same store, or fails. -/
def Drops (D : Discipline) (t : TransactionId) (H : Graph) (e : Engine)
    (m : Action (List StatementId)) (P : Engine → Removal → Prop) : Prop :=
  (∀ removed e', m.perform e = (.ok removed, e') → ∃ e₀ w, Sound D t H e₀ ∧ Grown t H e H e₀ ∧
    e₀.store = e.store ∧ P e₀ w ∧ removed = w.removed ∧ e' = w.record t) ∧
  ∀ f e', m.perform e = (.error f, e') → f = exhausted ∨
    f.breakdown? = none ∧ ∃ H', Sound D t H' e' ∧ Grown t H e H' e'

variable {m : Action (List StatementId)} {P : Engine → Removal → Prop}

theorem Drops.sheds (h : Drops D t H e m P)
    (hP : ∀ e₀ w, Sound D t H e₀ → P e₀ w → Removes t H e₀ (w.record t) w.batch) :
    Sheds D t H e m := by
  intro r e' hrun
  cases r with
  | ok removed =>
    obtain ⟨e₀, w, hs, hg, -, hw, -, rfl⟩ := h.1 removed e' hrun
    exact Or.inr ⟨answered_ok _, H, e₀, hs, hg, Or.inr ⟨w.batch, hP e₀ w hs hw⟩⟩
  | error f =>
    rcases h.2 f e' hrun with rfl | ⟨hf, H', hs, hg⟩
    · exact Or.inl rfl
    · exact Or.inr ⟨answered_error hf, H', e', hs, hg, Or.inl rfl⟩

theorem drops_bind {m : Action α} {k : α → Action (List StatementId)}
    (h : Grows D t H e m fun H' e' _ => H' = H ∧ e'.store = e.store)
    (hk : ∀ e' a, Sound D t H e' → e'.store = e.store → Drops D t H e' (k a) P) :
    Drops D t H e (m >>= k) P := by
  have hcases (r : Except Failure (List StatementId)) (e' : Engine)
      (hrun : (m >>= k).perform e = (r, e')) :
      (∃ f, r = .error f ∧ (f = exhausted ∨
          f.breakdown? = none ∧ ∃ H', Sound D t H' e' ∧ Grown t H e H' e')) ∨
        ∃ a e₁, Grown t H e H e₁ ∧ e₁.store = e.store ∧ Drops D t H e₁ (k a) P ∧
          (k a).perform e₁ = (r, e') := by
    rw [perform_bind] at hrun
    cases hm : m.perform e with
    | mk r₁ e₁ =>
      rw [hm] at hrun
      cases r₁ with
      | error f =>
        cases hrun
        exact Or.inl ⟨f, rfl, h.2 f e' hm⟩
      | ok a =>
        obtain ⟨H', hs, hg, rfl, hstore⟩ := h.1 a e₁ hm
        exact Or.inr ⟨a, e₁, hg, hstore, hk e₁ a hs hstore, hrun⟩
  constructor
  · intro removed e' hrun
    rcases hcases _ e' hrun with ⟨f, hf, -⟩ | ⟨a, e₁, hg, hstore, hdrops, hrun⟩
    · cases hf
    · obtain ⟨e₀, w, hs, hg', hstore', hw⟩ := hdrops.1 removed e' hrun
      exact ⟨e₀, w, hs, hg.trans hg', hstore'.trans hstore, hw⟩
  · intro f e' hrun
    rcases hcases _ e' hrun with ⟨f', hf, hfail⟩ | ⟨a, e₁, hg, -, hdrops, hrun⟩
    · cases hf
      exact hfail
    · apply (hdrops.2 f e' hrun).imp_right
      rintro ⟨hf, H', hs, hg'⟩
      exact ⟨hf, H', hs, hg.trans hg'⟩

theorem drops_get_bind {k : Engine → Action (List StatementId)} (h : Drops D t H e (k e) P) :
    Drops D t H e (get >>= k) P := h

theorem drops_throw_bind {k : α → Action (List StatementId)} (hs : Sound D t H e) {f : Failure}
    (hf : f.breakdown? = none) : Drops D t H e (throw f >>= k) P := by
  constructor
  · intro removed e' hrun
    cases hrun
  · intro f' e' hrun
    cases hrun
    exact Or.inr ⟨hf, H, hs, .refl t H e⟩

theorem drops_lift_bind {x : Except Failure α} {k : α → Action (List StatementId)}
    (hs : Sound D t H e) (hx : Answered x) (h : ∀ a, x = .ok a → Drops D t H e (k a) P) :
    Drops D t H e (liftM x >>= k) P := by
  cases x with
  | error f => exact drops_throw_bind hs (hx f rfl)
  | ok a => exact h a rfl

theorem drops_ensureOpen_bind {k : Unit → Action (List StatementId)} (hs : Sound D t H e)
    (h : Drops D t H e (k ()) P) : Drops D t H e (ensureOpen t >>= k) P := by
  rw [Drops, perform_bind, perform_ensureOpen hs.isOpen]
  exact h

theorem drops_carryOut {work : Removal → Removal} (hs : Sound D t H e)
    (h : P e (work { engine := e })) : Drops D t H e (carryOut t work) P := by
  constructor
  · intro removed e' hrun
    cases hrun
    exact ⟨e, _, hs, .refl t H e, rfl, h, rfl, rfl⟩
  · intro f e' hrun
    cases hrun

end Engine

end StatementGraph
