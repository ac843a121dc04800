import StatementGraph.Proofs.Rederiving

namespace StatementGraph

namespace Store

variable {s s' : Store} {x z : StatementId} {st st' : Statement}

/-! ### What does not depend on flags -/

theorem size_of_ids (h : ∀ x, x ∈ s'.ids ↔ x ∈ s.ids) : s'.size = s.size := by
  rw [← length_ids, ← length_ids]
  exact ((List.perm_ext_iff_of_nodup Table.keys_nodup Table.keys_nodup).2 h).length_eq

theorem size_of_graph (h : s'.graph = s.graph) : s'.size = s.size :=
  size_of_ids fun _ => mem_ids.trans (h ▸ mem_ids.symm)

theorem ancestors_congr (h : s'.graph = s.graph) : s'.ancestors = s.ancestors := by
  have howner : s'.ownerOf = s.ownerOf := by
    funext x
    rw [ownerOf_eq_graph, ownerOf_eq_graph, h]
  have hclimb (steps : Nat) (met : List StatementId) (c : Option StatementId) :
      s'.climb steps met c = s.climb steps met c := by
    induction steps generalizing met c with
    | zero => rfl
    | succ steps ih =>
      cases c with
      | none => rfl
      | some current => rw [climb, climb, ih, howner]
  funext x
  rw [ancestors, ancestors, hclimb, howner, size_of_graph h]

theorem solversFor_congr (hg : s'.graph = s.graph) (hi : s'.index = s.index) :
    s'.solversFor = s.solversFor := by
  funext x consequent
  simp only [solversFor, visibleByTerm, contextPath, localsByTerm, ancestors_congr hg, hi]

theorem isWithin_congr (h : s'.graph = s.graph) : s'.isWithin = s.isWithin := by
  funext x context
  rw [isWithin, isWithin, isBelow, isBelow, ancestors_congr h]

theorem isVisible_congr (h : s'.graph = s.graph) : s'.isVisible = s.isVisible := by
  funext x context
  rw [isVisible, isVisible, ownerOf_eq_graph, ownerOf_eq_graph, isWithin_congr h, h]

theorem contextsBelowByConsequent_congr (hg : s'.graph = s.graph) (hi : s'.index = s.index) :
    s'.contextsBelowByConsequent = s.contextsBelowByConsequent := by
  funext context term
  simp only [contextsBelowByConsequent, contextsByConsequent, isWithin_congr hg, hi]

theorem affected_congr {mode : PropagationMode} (hg : s'.graph = s.graph)
    (hi : s'.index = s.index) :
    Propagation.affected mode s' = Propagation.affected mode s := by
  funext st
  simp only [Propagation.affected, dependentsOf, contextsBelowByConsequent_congr hg hi, hi]

/-- Whether a changed flag of one statement may matter to another. -/
def Affects (mode : PropagationMode) (s : Store) (x z : StatementId) : Prop :=
  ∃ st, s.get? x = some st ∧ z ∈ Propagation.affected mode s st

theorem affects_congr {mode : PropagationMode} (hg : s'.graph = s.graph)
    (hi : s'.index = s.index) (hs : s.Indexed) (hs' : s'.Indexed) :
    s'.Affects mode x z ↔ s.Affects mode x z := by
  have hone {a b : Store} (hg : b.graph = a.graph) (hi : b.index = a.index) (ha : a.Indexed)
      (hb : b.Indexed) (h : b.Affects mode x z) : a.Affects mode x z := by
    obtain ⟨st', hst', hz⟩ := h
    obtain ⟨st, hst, hcontent⟩ := graph_eq_some.1 (hg ▸ graph_of_get? hst')
    have hid : st'.id = st.id := (hb.keyed x st' hst').trans (ha.keyed x st hst).symm
    have howner : st'.owner = st.owner := congrArg Content.owner hcontent.symm
    have hterm : st'.term = st.term := congrArg Content.term hcontent.symm
    rw [affected_congr hg hi] at hz
    refine ⟨st, hst, ?_⟩
    simpa only [Propagation.affected, hid, howner, hterm] using hz
  exact ⟨hone hg hi hs hs', hone hg.symm hi.symm hs' hs⟩

theorem supported_congr (hg : s'.graph = s.graph) (hi : s'.index = s.index) :
    s'.supported = s.supported := by
  funext x
  have hx : (s'.get? x).map Statement.content = (s.get? x).map Statement.content := congrFun hg x
  simp only [supported, localsOf, dependentsOf, contextsBelowByConsequent_congr hg hi, hi]
  congr 1
  cases h : s.get? x with
  | none =>
    rw [h] at hx
    rw [Option.map_eq_none_iff.1 hx]
  | some st =>
    rw [h] at hx
    obtain ⟨st', hst', hcontent⟩ := Option.map_eq_some_iff.1 hx
    have hsame : st'.owner = st.owner ∧ st'.term = st.term :=
      ⟨congrArg Content.owner hcontent, congrArg Content.term hcontent⟩
    simp only [hst', hsame.1, hsame.2]

/-- The statements to which a changed flag may matter are among those that it may support. -/
theorem Affects.mem_supported {mode : PropagationMode} (hi : s.Indexed)
    (h : s.Affects mode x z) : z ∈ s.supported x := by
  obtain ⟨st, hst, hz⟩ := h
  obtain rfl := hi.keyed x st hst
  simp only [supported, hst, List.mem_append]
  rcases List.mem_append.1 hz with hz | hz
  · exact Or.inl (Or.inr hz)
  · split at hz
    case h_1 owner _ ho =>
      rw [ho]
      exact Or.inr (List.mem_filter.1 hz).1
    case h_2 => cases hz

theorem index_setProved {flag : Bool} : (s.setProved x flag).index = s.index := by
  rw [setProved]
  split <;> rfl

/-- The proof rule still holds when more flags are set and more solvers are found. -/
theorem holds_of_solvers (hp : ∀ y, s.Proved y → s'.Proved y)
    (hs : ∀ consequent y, y ∈ s.solversFor st.id consequent → y ∈ s'.solversFor st.id consequent)
    (h : s.holds st = true) : s'.holds st = true := by
  have hall (ids : IdSet) (hids : s.allProved ids = true) : s'.allProved ids = true :=
    allProved_iff.2 fun d hd => hp d (allProved_iff.1 hids d hd)
  rw [holds, Bool.and_eq_true] at h ⊢
  refine ⟨hall _ h.1, ?_⟩
  have hkind := h.2
  rw [kindHolds] at hkind ⊢
  cases hk : st.kind with
  | assumption order => rfl
  | declaration value =>
    rw [hk] at hkind
    exact hall _ hkind
  | specialization general argument =>
    rw [hk] at hkind
    dsimp only at hkind ⊢
    rw [Bool.and_eq_true] at hkind ⊢
    exact ⟨hp general hkind.1, hall _ hkind.2⟩
  | context data =>
    rw [hk] at hkind
    dsimp only at hkind ⊢
    rw [Bool.and_eq_true, List.any_eq_true] at hkind ⊢
    obtain ⟨hunfolding, y, hy, hproved⟩ := hkind
    refine ⟨?_, y, hs _ y hy, hp y hproved⟩
    cases hdata : data.kind with
    | unfolding declaration =>
      rw [hdata] at hunfolding
      exact hp declaration hunfolding
    | _ => rfl

theorem holds_mono (hg : s'.graph = s.graph) (hi : s'.index = s.index)
    (hp : ∀ y, s.Proved y → s'.Proved y) (h : s.holds st = true) : s'.holds st = true :=
  holds_of_solvers hp (fun _ _ hy => solversFor_congr hg hi ▸ hy) h

/-- A rule that says the flag a statement gets keeps saying so. -/
theorem holds_setProved {flag : Bool} (hx : s.get? x = some st) (h : s.holds st' = flag) :
    (s.setProved x flag).holds st' = flag := by
  cases flag with
  | true =>
    refine holds_mono graph_setProved index_setProved (fun y hy => ?_) h
    exact (proved_setProved_true hx).2 (Or.inr hy)
  | false =>
    rw [Bool.eq_false_iff] at h ⊢
    intro hholds
    refine h (holds_mono graph_setProved.symm index_setProved.symm (fun y hy => ?_) hholds)
    rw [Proved, isProved_setProved hx] at hy
    by_cases hyx : y = x <;> simp_all [Proved]

end Store

namespace Propagation

open Store

variable {mode : PropagationMode} {up : Bool} {t : TransactionId} {run : Propagation}
  {x z : StatementId} {st : Statement} {U rest : List StatementId} {Q : StatementId → Prop}

/-- What any propagation keeps: it stays in a set, and its queue has each statement once. -/
structure Contained (mode : PropagationMode) (U : List StatementId) (Q : StatementId → Prop)
    (run : Propagation) : Prop where
  indexed : run.engine.store.Indexed
  covers : ∀ x z, Q x → run.engine.store.Affects mode x z → Q z
  queue : ∀ z ∈ run.queue, Q z ∧ z ∈ U
  nodup : run.queue.Nodup
  bounded : ∀ z c, run.engine.store.graph z = some c → z ∈ U

theorem mem_queue_step (hq : run.queue = x :: rest) (hz : z ∈ (step mode t run).queue) :
    z ∈ rest ∨ run.engine.store.Affects mode x z := by
  rcases step_cases mode t hq with ⟨-, hqueue, -⟩ | ⟨st, hst, -, -, hqueue⟩
  · exact Or.inl (hqueue ▸ hz)
  · rw [hqueue, affected_congr graph_setProved index_setProved] at hz
    rcases List.mem_append.1 hz with hz | hz
    · exact Or.inl hz
    · exact Or.inr ⟨st, hst, (Walk.mem_unseen.1 hz).1⟩

theorem nodup_queue_step (h : run.queue.Nodup) : (step mode t run).queue.Nodup := by
  cases hq : run.queue with
  | nil =>
    simp only [step, hq]
    exact List.nodup_nil
  | cons x rest =>
    have hrest : rest.Nodup := (List.nodup_cons.1 (hq ▸ h)).2
    rcases step_cases mode t hq with ⟨-, hqueue, -⟩ | ⟨st, -, -, -, hqueue⟩
    · exact hqueue ▸ hrest
    · exact hqueue ▸ Walk.nodup_append_unseen hrest

theorem indexed_step (h : run.engine.store.Indexed) : (step mode t run).engine.store.Indexed := by
  cases hq : run.queue with
  | nil =>
    simp only [step, hq]
    exact h
  | cons x rest =>
    rcases step_cases mode t hq with ⟨hs, -⟩ | ⟨st, -, -, hs, -⟩
    · exact hs ▸ h
    · exact hs ▸ h.setProved

theorem index_step : (step mode t run).engine.store.index = run.engine.store.index := by
  cases hq : run.queue with
  | nil => simp only [step, hq]
  | cons x rest =>
    rcases step_cases mode t hq with ⟨hs, -⟩ | ⟨st, -, -, hs, -⟩
    · rw [hs]
    · rw [hs, index_setProved]

theorem affects_step (h : run.engine.store.Indexed) :
    (step mode t run).engine.store.Affects mode x z ↔ run.engine.store.Affects mode x z :=
  affects_congr reflagged_step.graph index_step h (indexed_step h)

theorem Contained.step (h : Contained mode U Q run) (hq : run.queue = x :: rest) :
    Contained mode U Q (step mode t run) where
  indexed := indexed_step h.indexed
  covers y z hy hz := h.covers y z hy ((affects_step h.indexed).1 hz)
  queue z hz := by
    rcases mem_queue_step hq hz with hz | hz
    · exact h.queue z (hq ▸ List.mem_cons_of_mem _ hz)
    · obtain ⟨c, hc⟩ := mem_ids.1 (live_of_mem_supported h.indexed (hz.mem_supported h.indexed))
      exact ⟨h.covers x z (h.queue x (hq ▸ List.mem_cons_self)).1 hz, h.bounded z c hc⟩
  nodup := nodup_queue_step h.nodup
  bounded z c hz := h.bounded z c (reflagged_step.graph ▸ hz)

theorem Contained.drain {steps : Nat} (h : Contained mode U Q run) :
    Contained mode U Q (drain mode t steps run) :=
  drain_keeps h (fun _ _ _ h hq => h.step hq) steps

theorem Contained.length_queue_le (h : Contained mode U Q run) : run.queue.length ≤ U.length :=
  (List.subperm_of_subset h.nodup fun z hz => (h.queue z hz).2).length_le

theorem contained_start {e : Engine} {seeds : List StatementId} (hi : e.store.Indexed)
    (hseeds : ∀ z ∈ seeds, Q z) (hcovers : ∀ x z, Q x → e.store.Affects mode x z → Q z) :
    Contained mode (e.store.ids ++ Walk.unseen [] seeds) Q
      { engine := e, queue := Walk.unseen [] seeds } where
  indexed := hi
  covers := hcovers
  queue z hz := ⟨hseeds z (Walk.mem_unseen_nil.1 hz), List.mem_append_right _ hz⟩
  nodup := Walk.nodup_unseen
  bounded _ c hz := List.mem_append_left _ (mem_ids.2 ⟨c, hz⟩)

/-- What keeps flags going one way: a flag that stands as it would be set is what the rule says. -/
structure OneWay (mode : PropagationMode) (up : Bool) (U : List StatementId)
    (Q : StatementId → Prop) (run : Propagation) : Prop extends Contained mode U Q run where
  keeps : ∀ x st, Q x → run.engine.store.get? x = some st → st.proved = up →
    run.engine.store.holds st = up

theorem OneWay.holds_eq (h : OneWay mode up U Q run) (hx : Q x)
    (hst : run.engine.store.get? x = some st) (hne : run.engine.store.holds st ≠ st.proved) :
    run.engine.store.holds st = up := by
  by_cases hp : st.proved = up
  · exact h.keeps x st hx hst hp
  · cases up <;> simp_all

theorem OneWay.step (h : OneWay mode up U Q run) (hq : run.queue = x :: rest) :
    OneWay mode up U Q (step mode t run) := by
  have hcontained : Contained mode U Q (Propagation.step mode t run) := h.toContained.step hq
  rcases step_cases mode t hq with ⟨hs, -⟩ | ⟨st, hst, hne, hs, -⟩
  · exact ⟨hcontained, hs ▸ h.keeps⟩
  · have hholds := h.holds_eq (h.queue x (hq ▸ List.mem_cons_self)).1 hst hne
    rw [hholds] at hs
    refine ⟨hcontained, fun y sy hy hsy hflag => ?_⟩
    rw [hs] at hsy ⊢
    by_cases hyx : y = x
    · subst hyx
      rw [get?_setProved, if_pos rfl, hst] at hsy
      cases hsy
      exact holds_setProved hst hholds
    · rw [get?_setProved, if_neg hyx] at hsy
      exact holds_setProved hst (h.keeps y sy hy hsy hflag)

theorem OneWay.isProved_drain (h : OneWay mode up U Q run) (hx : run.engine.store.isProved x = up)
    (steps : Nat) : (drain mode t steps run).engine.store.isProved x = up := by
  refine (drain_keeps (I := fun run => OneWay mode up U Q run ∧ run.engine.store.isProved x = up)
    ⟨h, hx⟩ (fun run y rest hrun hq => ⟨hrun.1.step hq, ?_⟩) steps).2
  obtain ⟨h, hx⟩ := hrun
  rcases step_cases mode t hq with ⟨hs, -⟩ | ⟨st, hst, hne, hs, -⟩
  · rw [hs]
    exact hx
  · rw [hs, isProved_setProved hst]
    split
    · exact h.holds_eq (h.queue y (hq ▸ List.mem_cons_self)).1 hst hne
    · exact hx

theorem OneWay.drain {steps : Nat} (h : OneWay mode up U Q run)
    (hsteps : potential up U run ≤ steps) :
    OneWay mode up U Q (drain mode t steps run) ∧ (drain mode t steps run).queue = [] := by
  apply drain_empties h _ hsteps
  intro run x rest h hq
  obtain ⟨hQx, hx⟩ := h.queue x (hq ▸ List.mem_cons_self)
  have hstep : OneWay mode up U Q (Propagation.step mode t run) := h.step hq
  exact ⟨hstep, potential_step_lt hq hx (fun _ hst hne => h.holds_eq hQx hst hne)
    hstep.length_queue_le⟩

end Propagation

namespace Engine

open Store Propagation

variable {e : Engine} {t : TransactionId} {seeds : List StatementId}

/-- The propagation that derives the flags of a region anew, once they are cleared. -/
def derivation (e : Engine) (t : TransactionId) (seeds : List StatementId) : Propagation :=
  let cleared := (e.store.region seeds).toList.foldl (clearFlag t) e
  let queue := Walk.unseen [] (cleared.store.dependencySorted (e.store.region seeds).toList true)
  drain ⟨true, false⟩ t (bound (cleared.store.size + queue.length)) { engine := cleared, queue }

theorem rederive_eq : e.rederive t seeds = ((e.derivation t seeds).report,
    (e.store.region seeds).toList.foldl (announceChange t e.store)
      (e.derivation t seeds).engine) := rfl

theorem index_clearFlags (members : List StatementId) :
    (members.foldl (clearFlag t) e).store.index = e.store.index := by
  induction members generalizing e with
  | nil => rfl
  | cons x rest ih =>
    rw [List.foldl_cons, ih, clearFlag]
    split
    · rw [store_setProved, index_setProved]
    · rfl

/-- Deriving flags anew ends, in any store with current indexes. -/
theorem queue_derivation (hi : e.store.Indexed) : (e.derivation t seeds).queue = [] := by
  obtain ⟨hi', hr, hp⟩ := store_clearFlags (t := t) (e.store.region seeds).toList hi
  rw [derivation]
  generalize hcleared : (e.store.region seeds).toList.foldl (clearFlag t) e = cleared at hi' hr hp
  have hindex : cleared.store.index = e.store.index := hcleared ▸ index_clearFlags _
  have hmembers (z : StatementId) :
      z ∈ cleared.store.dependencySorted (e.store.region seeds).toList true ↔
        z ∈ e.store.region seeds := mem_dependencySorted
  generalize cleared.store.dependencySorted (e.store.region seeds).toList true = order at hmembers
  have hway : OneWay ⟨true, false⟩ true (cleared.store.ids ++ Walk.unseen [] order)
      (· ∈ e.store.region seeds) { engine := cleared, queue := Walk.unseen [] order } := by
    refine ⟨contained_start hi' (fun z hz => (hmembers z).1 hz) fun x z hx hz => ?_, ?_⟩
    · have hz := hz.mem_supported hi'
      rw [supported_congr hr.graph hindex] at hz
      exact region_supported hi hx hz
    · intro x st hx hst hflag
      exact absurd hx ((hp x).1 ((proved_of_get? hst).2 hflag)).2
  exact (hway.drain potential_start_le).2

end Engine

end StatementGraph
