import StatementGraph.Proofs.Auditing
import StatementGraph.Proofs.Quiescence

namespace StatementGraph

namespace Store

variable {s s' : Store} {x z : StatementId} {st : Statement} {P F : StatementId → Bool}
  {mode : PropagationMode}

/-- The rule of a statement holds, and its flag is missing. -/
def Late (s : Store) (x : StatementId) : Prop :=
  ∃ st, s.get? x = some st ∧ st.proved = false ∧ s.holds st = true

theorem Late.mem_inconsistent (h : s.Late x) (hi : s.Indexed) : x ∈ s.inconsistent := by
  obtain ⟨st, hst, hmissing, hholds⟩ := h
  refine (Store.mem_inconsistent hi).2 ⟨st, hst, ?_⟩
  rw [hmissing, hholds]
  decide

theorem Grounded.holds_eq (h : s.Grounded) (hlate : ∀ x, ¬s.Late x) (hst : s.get? x = some st) :
    s.holds st = st.proved := by
  cases hp : st.proved with
  | true => exact h x st hst hp
  | false => exact Bool.eq_false_iff.2 fun hholds => hlate x ⟨st, hst, hp, hholds⟩

/-- A statement that a raised flag makes late is one to which the flag may matter. -/
theorem Late.of_raised (h : (s.setProved x true).Late z) (hi : s.Indexed) (ht : s.graph.Tracked)
    (hmode : mode.solved = true) (hst : s.get? x = some st) :
    (s.Late z ∧ z ≠ x) ∨ s.Affects mode x z := by
  obtain ⟨sz, hsz, hmissing, hholds⟩ := h
  have hflags : (s.setProved x true).Proved = fun z => z = x ∨ s.Proved z :=
    funext fun z => propext (proved_setProved_true hst)
  have hraised : (s.setProved x true).graph.Follows (s.setProved x true).Proved z := by
    refine (holds_iff hi.setProved ?_ hsz).1 hholds
    rw [graph_setProved]
    exact ht
  rw [graph_setProved, hflags] at hraised
  have hne : z ≠ x := by
    rintro rfl
    rw [get?_setProved, if_pos rfl, hst] at hsz
    cases hsz
    cases hmissing
  rw [get?_setProved, if_neg hne] at hsz
  by_cases hold : s.graph.Follows s.Proved z
  · exact Or.inl ⟨⟨sz, hsz, hmissing, (holds_iff hi ht hsz).2 hold⟩, hne⟩
  · refine Or.inr ⟨st, hst, ?_⟩
    rw [Propagation.mem_affected hi (hi.keyed x st hst) (graph_of_get? hst)]
    exact (hraised.of_joined hold).imp_right fun hsolves => ⟨hmode, hsolves⟩

theorem reflagged_withFlags : s.Reflagged (s.withFlags P) ∧ (s.withFlags P).index = s.index := by
  rw [withFlags]
  generalize s.ids = l
  induction l generalizing s with
  | nil => exact ⟨.refl s, rfl⟩
  | cons x rest ih =>
    obtain ⟨hr, hx⟩ := @ih (s.setProved x (P x))
    exact ⟨reflagged_setProved.trans hr, hx.trans index_setProved⟩

theorem Reflagged.withFlags (hr : s.Reflagged s') (hx : s'.index = s.index) (hi : s.Indexed)
    (hi' : s'.Indexed) : s.withFlags s'.isProved = s' := by
  obtain ⟨hr', hx'⟩ := @reflagged_withFlags s s'.isProved
  refine Propagation.store_eq_of_flags (hr.symm.trans hr') (hx'.trans hx.symm) hi' hi.withFlags ?_
  intro x
  rw [Bool.eq_iff_iff]
  refine proved_withFlags.trans ⟨And.right, fun hproved => ⟨?_, hproved⟩⟩
  obtain ⟨st, hst, -⟩ := proved_iff.1 hproved
  exact ⟨st.content, hr.graph ▸ graph_of_get? hst⟩

theorem round_mono (h : P ≤ F) : s.round P ≤ s.round F := by
  intro x
  rw [Bool.le_iff_imp, round, round, get?_withFlags, get?_withFlags]
  cases s.get? x with
  | none => exact id
  | some st =>
    refine fun hholds =>
      holds_mono (s := s.withFlags P) (graph_withFlags.trans graph_withFlags.symm)
      (reflagged_withFlags.2.trans reflagged_withFlags.2.symm) (fun y hy => ?_) hholds
    obtain ⟨hlive, hy⟩ := proved_withFlags.1 hy
    exact proved_withFlags.2 ⟨hlive, Bool.le_iff_imp.1 (h y) hy⟩

end Store

namespace Propagation

open Store

variable {mode : PropagationMode} {t : TransactionId} {run : Propagation} {s : Store}
  {x : StatementId} {st : Statement} {U rest : List StatementId}

theorem flipped_step (mode : PropagationMode) (t : TransactionId) (hq : run.queue = x :: rest) :
    ((step mode t run).engine = run.engine ∧
      (step mode t run).report.flipped = run.report.flipped) ∨
    ∃ st, run.engine.store.get? x = some st ∧ run.engine.store.holds st ≠ st.proved ∧
      (step mode t run).engine.store =
        run.engine.store.setProved x (run.engine.store.holds st) ∧
      (step mode t run).report.flipped =
        run.report.flipped ++ [(x, run.engine.store.holds st)] := by
  simp only [step, hq]
  cases hst : run.engine.store.get? x with
  | none => exact Or.inl ⟨rfl, rfl⟩
  | some st =>
    by_cases hsame : run.engine.store.holds st = st.proved
    · simp only [if_pos hsame]
      exact Or.inl ⟨trivial, trivial⟩
    · simp only [if_neg hsame]
      refine Or.inr ⟨st, rfl, hsame, ?_, rfl⟩
      split
      · rw [Engine.store_notify, Engine.store_setProved]
      · rw [Engine.store_setProved]

/-- The flags that a propagation has raised: each is reported once and was missing. -/
structure Raised (s : Store) (raised : List StatementId) (run : Propagation) : Prop where
  nodup : raised.Nodup
  report : run.report.flipped = raised.map fun x => (x, true)
  missing : ∀ x ∈ raised, s.isProved x = false
  proved : ∀ x, run.engine.store.Proved x ↔ s.Proved x ∨ x ∈ raised

/-- A propagation that has only raised flags that every fixpoint above the store has. -/
structure Ascends (mode : PropagationMode) (U : List StatementId) (s : Store)
    (run : Propagation) : Prop extends OneWay mode true U (fun _ => True) run where
  reflagged : s.Reflagged run.engine.store
  index : run.engine.store.index = s.index
  raised : ∃ raised, Raised s raised run
  below : ∀ F, s.round F = F → s.isProved ≤ F → run.engine.store.isProved ≤ F

theorem Raised.step {raised : List StatementId} (h : Raised s raised run)
    (ho : OneWay mode true U (fun _ => True) run) (hq : run.queue = x :: rest) :
    ∃ raised', Raised s raised' (step mode t run) := by
  rcases flipped_step mode t hq with ⟨hs, hflipped⟩ | ⟨st, hst, hne, hs, hflipped⟩
  · exact ⟨raised, h.nodup, hflipped.trans h.report, h.missing, hs ▸ h.proved⟩
  · have hholds := ho.holds_eq trivial hst hne
    rw [hholds] at hne hs hflipped
    have hunproved : ¬(s.Proved x ∨ x ∈ raised) := by
      rw [← h.proved, proved_of_get? hst]
      exact fun hproved => hne hproved.symm
    obtain ⟨hold, hnew⟩ := not_or.1 hunproved
    refine ⟨raised ++ [x], ?_, ?_, ?_, fun y => ?_⟩
    · rw [← List.concat_eq_append]
      exact h.nodup.concat hnew
    · rw [hflipped, h.report, List.map_append]
      rfl
    · intro y hy
      rcases List.mem_append.1 hy with hy | hy
      · exact h.missing y hy
      · rw [List.mem_singleton.1 hy]
        exact Bool.eq_false_iff.2 hold
    · rw [hs, proved_setProved_true hst, h.proved, List.mem_append, List.mem_singleton]
      tauto

theorem Ascends.step (h : Ascends mode U s run) (hi : s.Indexed) (hq : run.queue = x :: rest) :
    Ascends mode U s (step mode t run) := by
  obtain ⟨raised, hraised⟩ := h.raised
  refine ⟨h.toOneWay.step hq, h.reflagged.trans reflagged_step, index_step.trans h.index,
    hraised.step h.toOneWay hq, fun F hF hle => ?_⟩
  have hbelow := h.below F hF hle
  rcases step_cases mode t hq with ⟨hs, -⟩ | ⟨st, hst, hne, hs, -⟩
  · rw [hs]
    exact hbelow
  · have hholds := h.holds_eq trivial hst hne
    rw [hs, hholds]
    intro y
    rw [isProved_setProved hst]
    split
    case isFalse => exact hbelow y
    case isTrue hy =>
      -- the flag is in the next round of the flags, hence in that of the fixpoint
      have hround := round_mono (s := s) hbelow x
      rw [hF, Store.round, h.reflagged.withFlags h.index hi h.indexed, hst, Option.any_some,
        hholds] at hround
      exact hy ▸ hround

/-- A propagation that has every late statement in its queue. -/
structure Saturates (mode : PropagationMode) (U : List StatementId) (s : Store)
    (run : Propagation) : Prop extends Ascends mode U s run where
  late : ∀ x, run.engine.store.Late x → x ∈ run.queue

theorem Saturates.step (h : Saturates mode U s run) (hi : s.Indexed) (ht : s.graph.Tracked)
    (hmode : mode.solved = true) (hq : run.queue = x :: rest) :
    Saturates mode U s (step mode t run) := by
  refine ⟨h.toAscends.step hi hq, fun z hz => ?_⟩
  have hlater (hold : run.engine.store.Late z) (hne : z ≠ x) : z ∈ rest :=
    (List.mem_cons.1 (hq ▸ h.late z hold)).resolve_left hne
  rcases step_cases mode t hq with ⟨hs, hqueue, hsame⟩ | ⟨st, hst, hne, hs, hqueue⟩
  · rw [hs] at hz
    rw [hqueue]
    refine hlater hz ?_
    rintro rfl
    obtain ⟨sz, hsz, hmissing, hholds⟩ := hz
    rw [hsame sz hsz, hmissing] at hholds
    cases hholds
  · rw [h.holds_eq trivial hst hne] at hs hqueue
    rw [hs] at hz
    rw [hqueue, affected_congr graph_setProved index_setProved, List.mem_append, Walk.mem_unseen]
    rcases hz.of_raised h.indexed (h.reflagged.graph ▸ ht) hmode hst with ⟨hold, hzx⟩ | haffects
    · exact Or.inl (hlater hold hzx)
    · obtain ⟨sx, hsx, hmem⟩ := haffects
      cases hst.symm.trans hsx
      tauto

theorem Saturates.holds_eq (h : Saturates mode U s run) (hq : run.queue = [])
    (hst : run.engine.store.get? x = some st) : run.engine.store.holds st = st.proved := by
  refine Grounded.holds_eq (fun x st => h.keeps x st trivial) (fun x hlate => ?_) hst
  have hqueued := h.late x hlate
  rw [hq] at hqueued
  cases hqueued

theorem Saturates.isLeast (h : Saturates mode U s run) (hi : s.Indexed) (hq : run.queue = []) :
    IsLeast {F | s.round F = F ∧ s.isProved ≤ F} run.engine.store.isProved := by
  obtain ⟨raised, hraised⟩ := h.raised
  refine ⟨⟨funext fun x => ?_, fun x => ?_⟩, fun F hF => h.below F hF.1 hF.2⟩
  · rw [Store.round, h.reflagged.withFlags h.index hi h.indexed, isProved]
    cases hst : run.engine.store.get? x with
    | none => rfl
    | some st => exact h.holds_eq hq hst
  · exact Bool.le_iff_imp.2 fun hx => (hraised.proved x).2 (Or.inl hx)

end Propagation

namespace Engine

open Store Propagation

variable {e : Engine} {mode : PropagationMode} {t : TransactionId} {seeds : List StatementId}

theorem ascends_start (hi : e.store.Indexed) (h : e.store.Grounded) :
    Ascends mode (e.store.ids ++ Walk.unseen [] seeds) e.store
      { engine := e, queue := Walk.unseen [] seeds } := by
  refine ⟨⟨contained_anywhere hi, fun x st _ => h x st⟩, .refl _, rfl, ⟨[], ?_⟩, fun _ _ hle => hle⟩
  exact ⟨List.nodup_nil, rfl, fun _ hx => (by cases hx), fun _ => by simp⟩

theorem ascends_propagation (hi : e.store.Indexed) (h : e.store.Grounded) :
    Ascends mode (e.store.ids ++ Walk.unseen [] seeds) e.store (e.propagation mode t seeds) :=
  drain_keeps (ascends_start hi h) (fun _ _ _ hrun hq => hrun.step hi hq) _

theorem saturates_propagation (hi : e.store.Indexed) (ht : e.store.graph.Tracked)
    (h : e.store.Grounded) (hmode : mode.solved = true) (hlate : ∀ x, e.store.Late x → x ∈ seeds) :
    Saturates mode (e.store.ids ++ Walk.unseen [] seeds) e.store (e.propagation mode t seeds) :=
  drain_keeps ⟨ascends_start hi h, fun x hx => Walk.mem_unseen_nil.2 (hlate x hx)⟩
    (fun _ _ _ hrun hq => hrun.step hi ht hmode hq) _

end Engine

/-- Over flags that satisfy their rules a propagation ends and gives the least fixpoint above. -/
theorem Reached.propagation_isLeast {permits : Engine → Op → Prop} {built : Engine}
    (hbuilt : Reached permits built) (P : StatementId → Bool) (mode : PropagationMode)
    (t : TransactionId) (seeds : List StatementId) :
    let e : Engine := { built with store := built.store.withFlags P }
    let run := e.propagation mode t seeds
    e.store.Grounded →
      ((Engine.await run).perform e = (.ok (), run.engine) ∧ run.queue = []) ∧
      e.store.Reflagged run.engine.store ∧
      (∃ raised : List StatementId, raised.Nodup ∧
        run.report.flipped = (raised.map fun x => (x, true)) ∧
        (∀ x ∈ raised, e.store.isProved x = false) ∧
        ∀ x, run.engine.store.isProved x = true ↔ e.store.isProved x = true ∨ x ∈ raised) ∧
      run.engine.store.Grounded ∧
      (mode.solved = true → (∀ x, e.store.Late x → x ∈ seeds) →
        run.engine.store.inconsistent = [] ∧
        IsLeast {F | e.store.round F = F ∧ e.store.isProved ≤ F} run.engine.store.isProved) := by
  intro e run hgrounded
  have haudited := hbuilt.audited
  have hi : e.store.Indexed := haudited.orderly.filed.indexed.withFlags
  have ht : e.store.graph.Tracked := by
    rw [show e.store.graph = built.store.graph from Store.graph_withFlags]
    exact haudited.accounted.tracked
  have hrun : Propagation.Ascends mode _ e.store run := Engine.ascends_propagation hi hgrounded
  have hempty : run.queue = [] :=
    (Propagation.OneWay.drain (Engine.ascends_start hi hgrounded).toOneWay
      Engine.potential_start_le).2
  obtain ⟨raised, hraised⟩ := hrun.raised
  refine ⟨⟨Engine.perform_await hempty, hempty⟩, hrun.reflagged,
    ⟨raised, hraised.nodup, hraised.report, hraised.missing, hraised.proved⟩,
    fun x st => hrun.keeps x st trivial, fun hmode hseeds => ?_⟩
  have hsaturates : Propagation.Saturates mode _ e.store run :=
    Engine.saturates_propagation hi ht hgrounded hmode hseeds
  exact ⟨Store.inconsistent_eq_nil fun x st => hsaturates.holds_eq hempty,
    hsaturates.isLeast hi hempty⟩

def loadedRing : List Op :=
  supportRing ++ [.declare ⟨1⟩ (.after 0) (.var (.after 5) (.atom "A"))]

/-- The loaded ring with the flags of the ring set, which hold one another up. -/
def liftedRing : Engine :=
  let built := Op.runAll (.inMemory {}) loadedRing
  { built with store := built.store.withFlags fun x => x.raw ∈ [2, 3, 4, 5, 6] }

theorem reached_loadedRing :
    Reached (fun _ _ => True) (Op.runAll (.inMemory {}) loadedRing) :=
  reached_of_succeed (by decide +kernel)

/-- The flags around the ring stay, and what rests on them gets its flag. -/
theorem liftedRing_isLeast :
    liftedRing.store.Grounded ∧ liftedRing.store.inconsistent = [.after 6] ∧
      (liftedRing.propagation ⟨true, true⟩ ⟨1⟩ [.after 6]).queue = [] ∧
      (liftedRing.propagation ⟨true, true⟩ ⟨1⟩ [.after 6]).report.flipped = [(.after 6, true)] ∧
      IsLeast {F | liftedRing.store.round F = F ∧ liftedRing.store.isProved ≤ F}
        (liftedRing.propagation ⟨true, true⟩ ⟨1⟩ [.after 6]).engine.store.isProved := by
  have hi : liftedRing.store.Indexed :=
    reached_loadedRing.audited.orderly.filed.indexed.withFlags
      (P := fun x => x.raw ∈ [2, 3, 4, 5, 6])
  have hlate : liftedRing.store.inconsistent = [.after 6] := by decide +kernel
  have hgrounded : liftedRing.store.Grounded := by
    refine Store.grounded_of_inconsistent hi ?_
    rw [hlate]
    decide +kernel
  have hseeds (x : StatementId) (hx : liftedRing.store.Late x) : x ∈ [.after 6] :=
    hlate ▸ hx.mem_inconsistent hi
  have hrun := reached_loadedRing.propagation_isLeast (fun x => x.raw ∈ [2, 3, 4, 5, 6])
    ⟨true, true⟩ ⟨1⟩ [.after 6] hgrounded
  exact ⟨hgrounded, hlate, hrun.1.2, by decide +kernel, (hrun.2.2.2.2 rfl hseeds).2⟩

end StatementGraph
