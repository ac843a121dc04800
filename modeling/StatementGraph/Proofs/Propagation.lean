import StatementGraph.Engine.Propagation
import StatementGraph.Proofs.Names
import StatementGraph.Proofs.Rule

namespace StatementGraph

namespace Engine

theorem store_onTransaction {e : Engine} {t : TransactionId} {f : Transaction → Transaction} :
    (e.onTransaction t f).store = e.store := by
  rw [onTransaction]
  split <;> rfl

theorem store_notify {e : Engine} {t : TransactionId} {event : Event} :
    (e.notify t event).store = e.store := by
  rw [notify]
  generalize e.listeners.hearers event = hearers
  induction hearers generalizing e with
  | nil => rfl
  | cons listener rest ih =>
    rw [List.foldl_cons, ih, hear]
    split
    · rw [store_onTransaction]
      rfl
    · rfl

theorem store_put {e : Engine} {t : TransactionId} {st : Statement} :
    (e.put t st).store = e.store.write st := by
  rw [put, onStore, keepStatement, store_onTransaction]

theorem store_setAuthority {e : Engine} {t : TransactionId} {id : StatementId}
    {a : Option Authority} : (e.setAuthority t id a).store = e.store.setAuthority id a := by
  rw [setAuthority, onStore, keepAuthority, store_onTransaction]

theorem store_setProved {e : Engine} {t : TransactionId} {id : StatementId} {flag : Bool} :
    (e.setProved t id flag).store = e.store.setProved id flag := by
  rw [setProved, onStore, keepStatement, store_onTransaction]

end Engine

namespace Store

variable {s s' s'' : Store} {x y z : StatementId} {st : Statement}
  {late late' : StatementId → Prop}

/-- The second store differs from the first in flags at most. -/
structure Reflagged (s s' : Store) : Prop where
  graph : s'.graph = s.graph
  authorities : s'.authorities = s.authorities
  allocator : s'.allocator = s.allocator
  names : ∀ x, s'.nameOf x = s.nameOf x

theorem Reflagged.refl (s : Store) : s.Reflagged s := ⟨rfl, rfl, rfl, fun _ => rfl⟩

theorem Reflagged.trans (h : s.Reflagged s') (h' : s'.Reflagged s'') : s.Reflagged s'' :=
  ⟨h'.graph.trans h.graph, h'.authorities.trans h.authorities, h'.allocator.trans h.allocator,
    fun x => (h'.names x).trans (h.names x)⟩

theorem Reflagged.symm (h : s.Reflagged s') : s'.Reflagged s :=
  ⟨h.graph.symm, h.authorities.symm, h.allocator.symm, fun x => (h.names x).symm⟩

theorem reflagged_setProved {flag : Bool} : s.Reflagged (s.setProved x flag) := by
  refine ⟨graph_setProved, ?_, ?_, fun _ => nameOf_setProved⟩
  · rw [setProved]
    split <;> rfl
  · rw [setProved]
    split <;> rfl

theorem isProved_setProved (hx : s.get? x = some st) {flag : Bool} :
    (s.setProved x flag).isProved z = if z = x then flag else s.isProved z := by
  rw [isProved, get?_setProved]
  by_cases hz : z = x
  · simp [hz, hx]
  · simp [hz, isProved]

theorem proved_setProved_true (hx : s.get? x = some st) :
    (s.setProved x true).Proved z ↔ z = x ∨ s.Proved z := by
  rw [Proved, isProved_setProved hx]
  by_cases hz : z = x <;> simp [hz, Proved]

/-- Flags are derivable, and what follows without a flag of its own is late. -/
structure Approaches (s : Store) (late : StatementId → Prop) : Prop where
  indexed : s.Indexed
  forest : s.graph.Forest
  tracked : s.graph.Tracked
  derivable : ∀ x, s.Proved x → s.graph.Derivable x
  follows : ∀ x, s.Proved x → s.graph.Follows s.Proved x
  late : ∀ x, s.graph.Follows s.Proved x → ¬s.Proved x → late x

theorem Approaches.imp (h : s.Approaches late) (hl : ∀ x, late x → late' x) :
    s.Approaches late' :=
  { h with late := fun x hx hn => hl x (h.late x hx hn) }

theorem Approaches.proved_iff (h : s.Approaches fun _ => False) :
    s.Proved x ↔ s.graph.Derivable x := by
  refine ⟨h.derivable x, fun hx => hx.least fun y hy => ?_⟩
  by_contra hn
  exact h.late y hy hn

def Settled (s : Store) : Prop := s.Approaches fun _ => False

theorem settled_of_proved_iff (hi : s.Indexed) (hf : s.graph.Forest) (ht : s.graph.Tracked)
    (h : ∀ x, s.Proved x ↔ s.graph.Derivable x) : s.Settled := by
  have hflags : s.Proved = s.graph.Derivable := funext fun x => propext (h x)
  refine ⟨hi, hf, ht, fun x => (h x).1, fun x hx => ?_, fun x hx hn => ?_⟩
  · rw [hflags]
    exact ((h x).1 hx).follows
  · rw [hflags] at hx
    exact hn ((h x).2 (Graph.derivable_of_follows hx))

theorem Settled.holds_eq (h : s.Settled) (hst : s.get? x = some st) : s.holds st = st.proved := by
  rw [Bool.eq_iff_iff, holds_iff h.indexed h.tracked hst, ← proved_of_get? hst]
  exact ⟨fun hfollows => by_contra fun hn => h.late x hfollows hn, h.follows x⟩

/-- Flagging a late statement makes its dependents late, and the contexts it solves. -/
theorem Approaches.raise (h : s.Approaches late) (hst : s.get? x = some st)
    (hx : s.graph.Follows s.Proved x) :
    (s.setProved x true).Approaches fun z =>
      (late z ∧ z ≠ x) ∨ (∃ c, s.graph z = some c ∧ x ∈ c.dependencies) ∨ s.graph.Solves x z := by
  have hflags : (s.setProved x true).Proved = fun z => z = x ∨ s.Proved z :=
    funext fun z => propext (proved_setProved_true hst)
  refine ⟨h.indexed.setProved, ?_, ?_, ?_, ?_, ?_⟩ <;>
    simp only [graph_setProved, hflags]
  · exact h.forest
  · exact h.tracked
  · rintro z (rfl | hz)
    · exact Graph.derivable_of_follows (hx.mono h.derivable)
    · exact h.derivable z hz
  · rintro z (rfl | hz)
    · exact hx.mono fun y => Or.inr
    · exact (h.follows z hz).mono fun y => Or.inr
  · intro z hz hn
    by_cases hold : s.graph.Follows s.Proved z
    · exact Or.inl ⟨h.late z hold fun hp => hn (Or.inr hp), fun he => hn (Or.inl he)⟩
    · exact Or.inr (hz.of_joined hold)

end Store

namespace Propagation

open Store

variable {mode : PropagationMode} {t : TransactionId} {run : Propagation} {s : Store}
  {x z : StatementId} {st : Statement} {U rest : List StatementId} {Q X : StatementId → Prop}

theorem mem_affected (hi : s.Indexed) (hid : st.id = x) (hx : s.graph x = some st.content) :
    z ∈ affected mode s st ↔ (∃ c, s.graph z = some c ∧ x ∈ c.dependencies) ∨
      (mode.solved = true ∧ s.graph.Solves x z) := by
  rw [affected, List.mem_append, hid, hi.mem_dependentsOf]
  refine or_congr_right ?_
  split
  case h_1 owner hmode ho =>
    simp only [hmode, true_and, List.mem_filter, decide_eq_true_iff,
      mem_contextsBelowByConsequent hi]
    constructor
    · rintro ⟨⟨⟨c, data, hc, hk, ht⟩, hw⟩, hne⟩
      refine ⟨hne.symm, ⟨st.content, owner, hx, ho, hw⟩, c, st.content, data, hc, hk, hx, ?_⟩
      rw [Term.beq_comm]
      exact ht
    · rintro ⟨hne, ⟨c, o, hc, ho', hw⟩, d, c', data, hd, hk, hc', ht⟩
      rw [hx] at hc hc'
      cases hc
      cases hc'
      cases ho.symm.trans ho'
      rw [Term.beq_comm] at ht
      exact ⟨⟨⟨d, data, hd, hk, ht⟩, hw⟩, hne.symm⟩
  case h_2 hnone =>
    constructor
    · intro h
      cases h
    · rintro ⟨hmode, -, ⟨c, o, hc, ho, -⟩, -⟩
      rw [hx] at hc
      cases hc
      exact absurd ho (hnone o hmode)

theorem step_cases (mode : PropagationMode) (t : TransactionId) (hq : run.queue = x :: rest) :
    ((step mode t run).engine = run.engine ∧ (step mode t run).queue = rest ∧
      ∀ st, run.engine.store.get? x = some st → run.engine.store.holds st = st.proved) ∨
    ∃ st, run.engine.store.get? x = some st ∧ run.engine.store.holds st ≠ st.proved ∧
      (step mode t run).engine.store =
        run.engine.store.setProved x (run.engine.store.holds st) ∧
      (step mode t run).queue = rest ++ Walk.unseen rest
        (affected mode (run.engine.store.setProved x (run.engine.store.holds st)) st) := by
  simp only [step, hq]
  cases hst : run.engine.store.get? x with
  | none => exact Or.inl ⟨rfl, rfl, fun st h => by cases h⟩
  | some st =>
    by_cases hsame : run.engine.store.holds st = st.proved
    · simp only [if_pos hsame]
      refine Or.inl ⟨trivial, trivial, fun st' h => ?_⟩
      cases h
      exact hsame
    · simp only [if_neg hsame, Engine.store_setProved]
      refine Or.inr ⟨st, rfl, hsame, ?_, rfl⟩
      split
      · rw [Engine.store_notify, Engine.store_setProved]
      · rw [Engine.store_setProved]

/-- A set of statements that a propagation does not leave. -/
structure Covers (mode : PropagationMode) (G : Graph) (Q X : StatementId → Prop) : Prop where
  dependents : ∀ y z c, Q y → G z = some c → y ∈ c.dependencies → Q z
  solved : ∀ y z, Q y → G.Solves y z → mode.solved = true → Q z
  ignored : ∀ y z, Q y → G.Solves y z → mode.solved = false → X z

theorem covers_all (G : Graph) (X : StatementId → Prop) (announce : Bool) :
    Covers ⟨true, announce⟩ G (fun _ => True) X :=
  ⟨fun _ _ _ _ _ _ => trivial, fun _ _ _ _ _ => trivial, fun _ _ _ _ h => by cases h⟩

/-- What a propagation keeps: the late statements are in the queue, each once. -/
structure Sound (mode : PropagationMode) (U : List StatementId) (Q X : StatementId → Prop)
    (run : Propagation) : Prop where
  approaches : run.engine.store.Approaches fun z => z ∈ run.queue ∨ X z
  covers : Covers mode run.engine.store.graph Q X
  queue : ∀ z ∈ run.queue, Q z ∧ z ∈ U
  nodup : run.queue.Nodup
  bounded : ∀ z c, run.engine.store.graph z = some c → z ∈ U

/-- Dropping a statement that has the flag it should have keeps the invariant. -/
theorem Sound.drop (h : Sound mode U Q X run) (hq : run.queue = x :: rest)
    (hsame : ∀ st, run.engine.store.get? x = some st → run.engine.store.holds st = st.proved)
    (run' : Propagation) (hs : run'.engine.store = run.engine.store) (hqueue : run'.queue = rest) :
    Sound mode U Q X run' := by
  have ha := h.approaches
  refine ⟨?_, ?_, ?_, ?_, ?_⟩ <;> simp only [hs, hqueue]
  · refine { ha with late := fun z hz hn => ?_ }
    rcases ha.late z hz hn with hmem | hX
    · rw [hq] at hmem
      rcases List.mem_cons.1 hmem with rfl | hmem
      · obtain ⟨c, hc, -⟩ := id hz
        obtain ⟨st, hst, -⟩ := graph_eq_some.1 hc
        have hholds := (holds_iff ha.indexed ha.tracked hst).2 hz
        rw [hsame st hst] at hholds
        exact absurd ((proved_of_get? hst).2 hholds) hn
      · exact Or.inl hmem
    · exact Or.inr hX
  · exact h.covers
  · exact fun z hz => h.queue z (hq ▸ List.mem_cons_of_mem _ hz)
  · exact (List.nodup_cons.1 (hq ▸ h.nodup)).2
  · exact h.bounded

theorem Sound.missing (h : Sound mode U Q X run) (hst : run.engine.store.get? x = some st)
    (hne : run.engine.store.holds st ≠ st.proved) :
    st.proved = false ∧ run.engine.store.holds st = true := by
  have ha := h.approaches
  cases hp : st.proved with
  | false =>
    rw [hp] at hne
    exact ⟨rfl, by simpa using hne⟩
  | true =>
    have hfollows := ha.follows x ((proved_of_get? hst).2 hp)
    rw [(holds_iff ha.indexed ha.tracked hst).2 hfollows, hp] at hne
    exact absurd rfl hne

/-- Raising a missing flag and queueing what it may matter to keeps the invariant. -/
theorem Sound.raise (h : Sound mode U Q X run) (hq : run.queue = x :: rest)
    (hst : run.engine.store.get? x = some st) (hholds : run.engine.store.holds st = true)
    (run' : Propagation) (hs : run'.engine.store = run.engine.store.setProved x true)
    (hqueue : run'.queue = rest ++ Walk.unseen rest
      (affected mode (run.engine.store.setProved x true) st)) :
    Sound mode U Q X run' := by
  have ha := h.approaches
  have hid : st.id = x := ha.indexed.keyed x st hst
  have hx := graph_of_get? hst
  have hQx : Q x := (h.queue x (hq ▸ List.mem_cons_self)).1
  have haffected (z : StatementId) :
      z ∈ affected mode (run.engine.store.setProved x true) st ↔
        (∃ c, run.engine.store.graph z = some c ∧ x ∈ c.dependencies) ∨
          (mode.solved = true ∧ run.engine.store.graph.Solves x z) := by
    have hgraph : (run.engine.store.setProved x true).graph = run.engine.store.graph :=
      graph_setProved
    rw [mem_affected ha.indexed.setProved hid (hgraph ▸ hx), hgraph]
  have hqueued (z : StatementId) : z ∈ run'.queue ↔
      z ∈ rest ∨ z ∈ affected mode (run.engine.store.setProved x true) st := by
    rw [hqueue, List.mem_append, Walk.mem_unseen]
    tauto
  refine ⟨?_, ?_, fun z hz => ?_, ?_, ?_⟩
  · rw [hs]
    refine (ha.raise hst ((holds_iff ha.indexed ha.tracked hst).1 hholds)).imp ?_
    rintro z (⟨hz | hX, hne⟩ | hdep | hsolves)
    · rw [hq] at hz
      exact Or.inl ((hqueued z).2 (Or.inl ((List.mem_cons.1 hz).resolve_left hne)))
    · exact Or.inr hX
    · exact Or.inl ((hqueued z).2 (Or.inr ((haffected z).2 (Or.inl hdep))))
    · -- a context that the statement solves is queued as well, or is one of those left alone
      cases hmode : mode.solved with
      | true => exact Or.inl ((hqueued z).2 (Or.inr ((haffected z).2 (Or.inr ⟨hmode, hsolves⟩))))
      | false => exact Or.inr (h.covers.ignored x z hQx hsolves hmode)
  · rw [hs, graph_setProved]
    exact h.covers
  · rcases (hqueued z).1 hz with hz | hz
    · exact h.queue z (hq ▸ List.mem_cons_of_mem _ hz)
    · rcases (haffected z).1 hz with ⟨c, hc, hdep⟩ | ⟨hmode, hsolves⟩
      · exact ⟨h.covers.dependents x z c hQx hc hdep, h.bounded z c hc⟩
      · obtain ⟨-, -, c, -, -, hc, -⟩ := id hsolves
        exact ⟨h.covers.solved x z hQx hsolves hmode, h.bounded z c hc⟩
  · rw [hqueue]
    exact Walk.nodup_append_unseen (List.nodup_cons.1 (hq ▸ h.nodup)).2
  · rw [hs, graph_setProved]
    exact h.bounded

theorem Sound.step (h : Sound mode U Q X run) (hq : run.queue = x :: rest) :
    Sound mode U Q X (step mode t run) := by
  rcases step_cases mode t hq with ⟨hs, hqueue, hsame⟩ | ⟨st, hst, hne, hs, hqueue⟩
  · exact h.drop hq hsame _ (by rw [hs]) hqueue
  · obtain ⟨-, hholds⟩ := h.missing hst hne
    rw [hholds] at hs hqueue
    exact h.raise hq hst hholds _ hs hqueue

/-- What is left to do while flags go one way. -/
def potential (up : Bool) (U : List StatementId) (run : Propagation) : Nat :=
  (U.filter fun z => run.engine.store.isProved z != up).length * (U.length + 1) + run.queue.length

/-- A step that changes flags one way only leaves less to do. -/
theorem potential_step_lt {up : Bool} (hq : run.queue = x :: rest) (hx : x ∈ U)
    (hway : ∀ st, run.engine.store.get? x = some st → run.engine.store.holds st ≠ st.proved →
      run.engine.store.holds st = up)
    (hlen : (step mode t run).queue.length ≤ U.length) :
    potential up U (step mode t run) < potential up U run := by
  rcases step_cases mode t hq with ⟨hs, hqueue, -⟩ | ⟨st, hst, hne, hs, -⟩
  · rw [potential, potential, hs, hqueue, hq, List.length_cons]
    omega
  · -- one statement less with the other flag pays for any number of new statements in the queue
    have hholds := hway st hst hne
    have hother : run.engine.store.isProved x ≠ up := by
      rw [isProved, hst, ← hholds]
      exact hne.symm
    have hfilter : (U.filter fun z => (Propagation.step mode t run).engine.store.isProved z != up) =
        (U.filter fun z => run.engine.store.isProved z != up).filter (· ≠ x) := by
      rw [List.filter_filter]
      refine List.filter_congr fun z _ => ?_
      rw [hs, hholds, isProved_setProved hst]
      by_cases hz : z = x <;> simp [hz]
    have hless : ((U.filter fun z => run.engine.store.isProved z != up).filter (· ≠ x)).length <
        (U.filter fun z => run.engine.store.isProved z != up).length := by
      refine List.length_filter_lt_length_iff_exists.2 ⟨x, List.mem_filter.2 ⟨hx, ?_⟩, by simp⟩
      simp [hother]
    have hmul := Nat.mul_le_mul_right (U.length + 1) hless
    rw [Nat.succ_mul] at hmul
    rw [potential, potential, hfilter]
    omega

theorem drain_keeps {I : Propagation → Prop} (h : I run)
    (hstep : ∀ run x rest, I run → run.queue = x :: rest → I (step mode t run)) (steps : Nat) :
    I (drain mode t steps run) := by
  induction steps generalizing run with
  | zero => exact h
  | succ steps ih =>
    rw [Propagation.drain]
    split
    case h_1 => exact h
    case h_2 x rest hq => exact ih (hstep run x rest h hq)

theorem drain_empties {I : Propagation → Prop} {measure : Propagation → Nat} {steps : Nat}
    (h : I run)
    (hstep : ∀ run x rest, I run → run.queue = x :: rest →
      I (step mode t run) ∧ measure (step mode t run) < measure run)
    (hsteps : measure run ≤ steps) :
    I (drain mode t steps run) ∧ (drain mode t steps run).queue = [] := by
  induction steps generalizing run with
  | zero =>
    cases hq : run.queue with
    | nil => exact ⟨h, hq⟩
    | cons x rest =>
      have hlt := (hstep run x rest h hq).2
      omega
  | succ steps ih =>
    rw [Propagation.drain]
    split
    case h_1 hq => exact ⟨h, hq⟩
    case h_2 x rest hq =>
      obtain ⟨hnext, hlt⟩ := hstep run x rest h hq
      exact ih hnext (by omega)

theorem Sound.length_queue_le (h : Sound mode U Q X run) : run.queue.length ≤ U.length :=
  (List.subperm_of_subset h.nodup fun z hz => (h.queue z hz).2).length_le

theorem Sound.drain {steps : Nat} (h : Sound mode U Q X run)
    (hsteps : potential true U run ≤ steps) :
    Sound mode U Q X (drain mode t steps run) ∧ (drain mode t steps run).queue = [] := by
  apply drain_empties h _ hsteps
  intro run x rest h hq
  have hx : x ∈ U := (h.queue x (hq ▸ List.mem_cons_self)).2
  have hstep := h.step (t := t) hq
  exact ⟨hstep, potential_step_lt hq hx (fun _ hst hne => (h.missing hst hne).2)
    hstep.length_queue_le⟩

theorem reflagged_step : run.engine.store.Reflagged (step mode t run).engine.store := by
  cases hq : run.queue with
  | nil =>
    simp only [step, hq]
    exact .refl _
  | cons x rest =>
    rcases step_cases mode t hq with ⟨hs, -⟩ | ⟨st, -, -, hs, -⟩
    · rw [hs]
      exact .refl _
    · rw [hs]
      exact reflagged_setProved

theorem reflagged_drain (run : Propagation) (steps : Nat) :
    run.engine.store.Reflagged (drain mode t steps run).engine.store :=
  drain_keeps (I := fun later => run.engine.store.Reflagged later.engine.store) (.refl _)
    (fun _ _ _ h _ => h.trans reflagged_step) steps

theorem le_bound (n : Nat) : n * (n + 1) + n ≤ bound n := by
  rw [bound]
  match n with
  | 0 => decide
  | 1 => decide
  | n + 2 =>
    have hsquare : (2 * (n + 2 + 1)) ^ 2 ≤ (2 * (n + 2 + 1)) ^ (n + 2) :=
      Nat.pow_le_pow_right (by omega) (by omega)
    have hle : (n + 2) * (n + 2 + 1) + (n + 2) ≤ (2 * (n + 2 + 1)) ^ 2 := by
      rw [← Nat.mul_succ, Nat.pow_two]
      exact Nat.mul_le_mul (by omega) (by omega)
    exact Nat.le_trans hle hsquare

end Propagation

namespace Engine

open Store Propagation

variable {e : Engine} {mode : PropagationMode} {t : TransactionId} {seeds : List StatementId}
  {Q X : StatementId → Prop}

theorem reflagged_propagation : e.store.Reflagged (e.propagation mode t seeds).engine.store :=
  reflagged_drain { engine := e, queue := Walk.unseen [] seeds } _

theorem potential_start_le {up : Bool} : potential up (e.store.ids ++ Walk.unseen [] seeds)
    { engine := e, queue := Walk.unseen [] seeds } ≤
      bound (e.store.size + (Walk.unseen [] seeds).length) := by
  have hlen : (e.store.ids ++ Walk.unseen [] seeds).length =
      e.store.size + (Walk.unseen [] seeds).length := by
    rw [List.length_append, length_ids]
  refine Nat.le_trans ?_ (le_bound _)
  rw [potential, hlen]
  refine Nat.add_le_add (Nat.mul_le_mul_right _ ?_) (Nat.le_add_left _ _)
  rw [← hlen]
  exact List.length_filter_le _ _

/-- Propagating from seeds among which are all late statements comes to rest and leaves none. -/
theorem approaches_propagation (h : e.store.Approaches fun z => z ∈ seeds ∨ X z)
    (hc : Covers mode e.store.graph Q X) (hQ : ∀ z ∈ seeds, Q z) :
    (e.propagation mode t seeds).engine.store.Approaches X ∧
      (e.propagation mode t seeds).queue = [] := by
  have hsound : Sound mode (e.store.ids ++ Walk.unseen [] seeds) Q X
      { engine := e, queue := Walk.unseen [] seeds } := by
    refine ⟨h.imp fun z hz => hz.imp_left Walk.mem_unseen_nil.2, hc, fun z hz => ?_,
      Walk.nodup_unseen, fun z c hz => List.mem_append_left _ (mem_ids.2 ⟨c, hz⟩)⟩
    exact ⟨hQ z (Walk.mem_unseen_nil.1 hz), List.mem_append_right _ hz⟩
  obtain ⟨hdrain, hempty⟩ := hsound.drain (t := t) potential_start_le
  refine ⟨hdrain.approaches.imp fun z hz => hz.resolve_left fun hz => ?_, hempty⟩
  rw [hempty] at hz
  cases hz

theorem propagation_of_settled (h : e.store.Settled) :
    (e.propagation mode t seeds).engine = e ∧ (e.propagation mode t seeds).queue = [] := by
  refine @drain_empties mode t _ (fun run => run.engine = e) (fun run => run.queue.length) _
    rfl (fun run x rest hrun hq => ?_) ?_
  · rcases step_cases mode t hq with ⟨hs, hqueue, -⟩ | ⟨st, hst, hne, -⟩
    · refine ⟨hs.trans hrun, ?_⟩
      rw [hqueue, hq]
      exact Nat.lt_succ_self _
    · rw [hrun] at hst hne
      exact absurd (h.holds_eq hst) hne
  · refine Nat.le_trans ?_ (le_bound _)
    change (Walk.unseen [] seeds).length ≤ _
    omega

theorem perform_await {run : Propagation} (h : run.queue = []) :
    (await run).perform e = (.ok (), run.engine) := by
  rw [await, h]
  rfl

theorem perform_await_restless {run : Propagation} (h : run.queue ≠ []) :
    (await run).perform e = (.error (.breakdown .endless), e) := by
  rw [await, if_neg]
  · rfl
  · rwa [List.isEmpty_iff]

theorem await_cases (run : Propagation) (e : Engine) :
    (await run).perform e = (.ok (), run.engine) ∨
      (await run).perform e = (.error (.breakdown .endless), e) := by
  by_cases hrests : run.queue = []
  · exact Or.inl (perform_await hrests)
  · exact Or.inr (perform_await_restless hrests)

theorem await_performs {run : Propagation} {e e' : Engine} :
    (await run).perform e = (.ok (), e') ↔ run.queue = [] ∧ e' = run.engine := by
  by_cases hrests : run.queue = []
  · rw [perform_await hrests]
    refine ⟨fun h => ?_, fun h => by rw [h.2]⟩
    cases h
    exact ⟨hrests, rfl⟩
  · rw [perform_await_restless hrests]
    exact ⟨fun h => (by cases h), fun h => absurd h.1 hrests⟩

end Engine

end StatementGraph
