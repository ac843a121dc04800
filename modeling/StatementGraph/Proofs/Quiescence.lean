import Mathlib.Algebra.BigOperators.Ring.List
import Mathlib.Algebra.Order.BigOperators.Group.List
import Mathlib.Algebra.Ring.Nat
import Mathlib.Data.Fintype.BigOperators
import Mathlib.Data.Fintype.Pigeonhole
import Mathlib.Dynamics.PeriodicPts.Defs
import StatementGraph.Proofs.Bookkeeping
import StatementGraph.Proofs.LeastFixpoint
import StatementGraph.Proofs.Rising

namespace StatementGraph

namespace Propagation

open Store

variable {mode : PropagationMode} {t : TransactionId} {run run' : Propagation}
  {x z : StatementId} {U rest : List StatementId} {Q : StatementId → Prop}
  {v : Store × List StatementId} {steps n p : Nat}

/-! ### The course of a propagation -/

def view (run : Propagation) : Store × List StatementId := (run.engine.store, run.queue)

/-- One step, as far as the course of a propagation goes. -/
def advance (mode : PropagationMode) : Store × List StatementId → Store × List StatementId
  | (s, []) => (s, [])
  | (s, x :: rest) =>
    match s.get? x with
    | none => (s, rest)
    | some st =>
      if s.holds st = st.proved then (s, rest)
      else
        let s' := s.setProved x (s.holds st)
        (s', rest ++ Walk.unseen rest (affected mode s' st))

theorem view_step : (step mode t run).view = advance mode run.view := by
  rw [view, view]
  cases hq : run.queue with
  | nil => simp only [step, hq, advance]
  | cons x rest =>
    simp only [step, hq, advance]
    cases hst : run.engine.store.get? x with
    | none => rfl
    | some st =>
      dsimp only
      by_cases hsame : run.engine.store.holds st = st.proved
      · simp only [if_pos hsame]
      · simp only [if_neg hsame, Engine.store_setProved]
        split
        · rw [Engine.store_notify, Engine.store_setProved]
        · rw [Engine.store_setProved]

theorem advance_of_empty (h : v.2 = []) : advance mode v = v := by
  obtain ⟨s, q⟩ := v
  obtain rfl : q = [] := h
  rfl

theorem drain_of_empty (h : run.queue = []) : drain mode t n run = run := by
  cases n with
  | zero => rfl
  | succ n => rw [drain, h]

theorem view_drain : (drain mode t n run).view = (advance mode)^[n] run.view := by
  induction n generalizing run with
  | zero => rfl
  | succ n ih =>
    rw [drain]
    split
    case h_1 hq => exact (Function.iterate_fixed (advance_of_empty hq) _).symm
    case h_2 => rw [ih, view_step, Function.iterate_succ_apply]

theorem queue_drain : (drain mode t n run).queue = ((advance mode)^[n] run.view).2 :=
  congrArg Prod.snd view_drain

theorem empty_of_le {m : Nat} (h : ((advance mode)^[n] v).2 = []) (hle : n ≤ m) :
    ((advance mode)^[m] v).2 = [] := by
  obtain ⟨k, rfl⟩ := Nat.exists_eq_add_of_le' hle
  rw [Function.iterate_add_apply, Function.iterate_fixed (advance_of_empty h)]
  exact h

theorem nonempty_of_recurs (hp : 0 < p) (hrecurs : Function.IsPeriodicPt (advance mode) p v)
    (hv : v.2 ≠ []) : ((advance mode)^[n] v).2 ≠ [] := by
  intro hempty
  have hlater := empty_of_le hempty (Nat.le_mul_of_pos_left n hp)
  rw [hrecurs.mul_const n] at hlater
  exact hv hlater

/-! ### The steps granted -/

theorem index_drain : (drain mode t steps run).engine.store.index = run.engine.store.index :=
  drain_keeps (I := fun later => later.engine.store.index = run.engine.store.index) rfl
    (fun _ _ _ h _ => index_step.trans h) steps

/-- The flags of the statements of a list, and the queue by positions in the list. -/
def code (U : List StatementId) (v : Store × List StatementId) :
    (Fin U.length → Bool) × (Fin U.length → Option (Fin U.length)) :=
  (fun i => v.1.isProved U[i], fun i => v.2[i.val]?.bind fun z => U.finIdxOf? z)

/-- A queue is given by the positions of its statements. -/
theorem queue_eq_of_code {q q' : List StatementId} (hq : ∀ z ∈ q, z ∈ U) (hq' : ∀ z ∈ q', z ∈ U)
    (hlen : q.length ≤ U.length) (hlen' : q'.length ≤ U.length)
    (h : ∀ i : Fin U.length, (q[i.val]?.bind fun z => U.finIdxOf? z) =
      q'[i.val]?.bind fun z => U.finIdxOf? z) : q = q' := by
  have hfind (z : StatementId) (hz : z ∈ U) :
      ∃ i : Fin U.length, U.finIdxOf? z = some i ∧ U[i] = z := by
    have hsome : (U.finIdxOf? z).isSome = true := by
      rw [List.isSome_finIdxOf?]
      exact List.contains_iff_mem.2 hz
    obtain ⟨i, hi⟩ := Option.isSome_iff_exists.1 hsome
    exact ⟨i, hi, (List.finIdxOf?_eq_some_iff.1 hi).1⟩
  refine List.ext_getElem? fun i => ?_
  by_cases hi : i < U.length
  · have hcode := h ⟨i, hi⟩
    dsimp only at hcode
    cases ha : q[i]? with
    | none =>
      cases hb : q'[i]? with
      | none => rfl
      | some b =>
        obtain ⟨k, hk, -⟩ := hfind b (hq' b (List.mem_of_getElem? hb))
        simp [ha, hb, hk] at hcode
    | some a =>
      obtain ⟨j, hj, rfl⟩ := hfind a (hq a (List.mem_of_getElem? ha))
      cases hb : q'[i]? with
      | none => simp [ha, hb] at hcode
      | some b =>
        obtain ⟨k, hk, rfl⟩ := hfind b (hq' b (List.mem_of_getElem? hb))
        simp only [ha, hb, Option.bind_some, hj, hk, Option.some.injEq] at hcode
        rw [hcode]
  · rw [List.getElem?_eq_none (by omega), List.getElem?_eq_none (by omega)]

theorem store_eq_of_flags {s s' : Store} (hr : s.Reflagged s') (hi : s'.index = s.index)
    (hs : s.Indexed) (hs' : s'.Indexed) (hflags : ∀ x, s'.isProved x = s.isProved x) : s' = s := by
  have hget (x : StatementId) : s'.get? x = s.get? x := by
    have hgraph := congrFun hr.graph x
    have hname := hr.names x
    have hflag := hflags x
    cases hst : s.get? x with
    | none =>
      rw [graph, graph, hst] at hgraph
      exact Option.map_eq_none_iff.1 hgraph
    | some st =>
      rw [graph, graph, hst] at hgraph
      obtain ⟨st', hst', hcontent⟩ := Option.map_eq_some_iff.1 hgraph
      rw [nameOf, nameOf, hst, hst'] at hname
      rw [isProved, isProved, hst, hst'] at hflag
      have hid : st'.id = st.id := (hs'.keyed x st' hst').trans (hs.keyed x st hst).symm
      cases st
      cases st'
      simp_all [Statement.content]
  have hauthorities := hr.authorities
  have hallocator := hr.allocator
  cases s
  cases s'
  cases Table.eq_of_get? hget
  cases hi
  cases hauthorities
  cases hallocator
  rfl

/-- A propagation that has the flags and the queue again which it had never ends. -/
theorem Contained.restless (h : Contained mode U Q run) (hp : 0 < p) (hq : run.queue ≠ [])
    (hflags : ∀ x ∈ U, (Propagation.drain mode t p run).engine.store.isProved x =
      run.engine.store.isProved x)
    (hqueue : (Propagation.drain mode t p run).queue = run.queue) (n : Nat) :
    (Propagation.drain mode t n run).queue ≠ [] := by
  have hdrain : Contained mode U Q (Propagation.drain mode t p run) := h.drain
  have hstore : (Propagation.drain mode t p run).engine.store = run.engine.store := by
    apply store_eq_of_flags (reflagged_drain run p) index_drain h.indexed hdrain.indexed
    intro x
    by_cases hx : x ∈ U
    · exact hflags x hx
    · have hdead {s : Store} (hs : ∀ z c, s.graph z = some c → z ∈ U) : s.isProved x = false := by
        rw [isProved]
        cases hst : s.get? x with
        | none => rfl
        | some st => exact absurd (hs x st.content (graph_of_get? hst)) hx
      rw [hdead hdrain.bounded, hdead h.bounded]
  have hrecurs : Function.IsPeriodicPt (advance mode) p run.view := by
    rw [Function.IsPeriodicPt, Function.IsFixedPt, ← view_drain (t := t)]
    exact Prod.ext hstore hqueue
  rw [queue_drain]
  exact nonempty_of_recurs hp hrecurs hq

/-- The steps granted are enough, if any number of steps is. -/
theorem empty_of_ends (h : Contained mode U Q run) (hends : (drain mode t n run).queue = []) :
    (drain mode t (bound U.length) run).queue = [] := by
  by_contra hbusy
  have hcard : Fintype.card ((Fin U.length → Bool) × (Fin U.length → Option (Fin U.length))) <
      Fintype.card (Fin (bound U.length + 1)) := by
    simp [bound, mul_pow]
  obtain ⟨i, j, hne, hcode⟩ := Fintype.exists_ne_map_eq_of_card_lt
    (fun i : Fin (bound U.length + 1) => code U (drain mode t i run).view) hcard
  wlog hlt : i < j generalizing i j
  · exact this j i hne.symm hcode.symm (by omega)
  -- from the first of the two places on, the propagation goes round and round
  have hi : Contained mode U Q (drain mode t i run) := h.drain
  have hj : Contained mode U Q (drain mode t j run) := h.drain
  have hround : (drain mode t (j - i) (drain mode t i run)).view = (drain mode t j run).view := by
    rw [view_drain, view_drain, view_drain, ← Function.iterate_add_apply]
    congr 1
    omega
  refine hi.restless (p := j - i) (t := t) (by omega) ?_ ?_ ?_ n ?_
  · rw [queue_drain] at hbusy ⊢
    exact fun hempty => hbusy (empty_of_le hempty (by omega))
  · intro x hx
    obtain ⟨k, hk, rfl⟩ := List.getElem_of_mem hx
    have hflag := congrFun (congrArg Prod.fst hcode) ⟨k, hk⟩
    exact (congrArg (fun v => v.1.isProved U[k]) hround).trans hflag.symm
  · refine (congrArg Prod.snd hround).trans ?_
    exact queue_eq_of_code (fun z hz => (hj.queue z hz).2) (fun z hz => (hi.queue z hz).2)
      hj.length_queue_le hi.length_queue_le fun k => (congrFun (congrArg Prod.snd hcode) k).symm
  · rw [queue_drain] at hends
    rw [queue_drain, view_drain, ← Function.iterate_add_apply]
    exact empty_of_le hends (by omega)

/-! ### Circles of support -/

/-- Where no member of a set comes after itself, there are ranks that go down to the members. -/
theorem exists_rank {R : StatementId → StatementId → Prop} (hU : ∀ x y, R x y → y ∈ U)
    (hQ : ∀ y, Q y → ¬Relation.TransGen R y y) :
    ∃ rank : StatementId → Nat, ∀ x y, Q y → R x y → rank y < rank x := by
  classical
  -- the rank of a statement is the number of statements that come after it
  refine ⟨fun x => (U.toFinset.filter (Relation.TransGen R x)).card, fun x y hy hxy => ?_⟩
  apply Finset.card_lt_card
  refine (Finset.ssubset_iff_of_subset fun z hz => ?_).2 ⟨y, ?_, fun h => ?_⟩
  · obtain ⟨hzU, hyz⟩ := Finset.mem_filter.1 hz
    exact Finset.mem_filter.2 ⟨hzU, .head hxy hyz⟩
  · exact Finset.mem_filter.2 ⟨List.mem_toFinset.2 (hU x y hxy), .single hxy⟩
  · exact hQ y hy (Finset.mem_filter.1 h).2

/-- A propagation in which support goes down in rank. -/
structure Descending (mode : PropagationMode) (rank : StatementId → Nat) (U : List StatementId)
    (Q : StatementId → Prop) (run : Propagation) : Prop extends Contained mode U Q run where
  descends : ∀ x z, Q x → run.engine.store.Affects mode x z → rank z < rank x

theorem Descending.step {rank : StatementId → Nat} (h : Descending mode rank U Q run)
    (hq : run.queue = x :: rest) : Descending mode rank U Q (step mode t run) :=
  ⟨h.toContained.step hq, fun y z hy hz => h.descends y z hy ((affects_step h.indexed).1 hz)⟩

/-- What the queue may still cause, by the rank of its statements. -/
def burden (U : List StatementId) (rank : StatementId → Nat) (run : Propagation) : Nat :=
  (run.queue.map fun z => (U.length + 1) ^ rank z).sum

theorem sum_map_lt {l : List StatementId} {weight : StatementId → Nat} {b : Nat} (hb : 0 < b)
    (hlen : l.length ≤ n) (h : ∀ z ∈ l, (n + 1) * weight z ≤ b) : (l.map weight).sum < b := by
  have hsum : (n + 1) * (l.map weight).sum ≤ n * b := by
    calc (n + 1) * (l.map weight).sum
        = (l.map fun z => (n + 1) * weight z).sum := (List.sum_map_mul_left l weight (n + 1)).symm
      _ ≤ (l.map fun z => (n + 1) * weight z).length * b := by
          refine List.sum_le_card_nsmul _ _ fun m hm => ?_
          obtain ⟨z, hz, rfl⟩ := List.mem_map.1 hm
          exact h z hz
      _ ≤ n * b := by
          rw [List.length_map]
          exact Nat.mul_le_mul_right _ hlen
  refine Nat.lt_of_mul_lt_mul_left (a := n + 1) (Nat.lt_of_le_of_lt hsum ?_)
  exact Nat.mul_lt_mul_of_pos_right (Nat.lt_succ_self n) hb

theorem Descending.burden_step_lt {rank : StatementId → Nat} (h : Descending mode rank U Q run)
    (hq : run.queue = x :: rest) :
    burden U rank (Propagation.step mode t run) < burden U rank run := by
  have hpos : 0 < (U.length + 1) ^ rank x := Nat.pow_pos (Nat.succ_pos _)
  rcases step_cases mode t hq with ⟨-, hqueue, -⟩ | ⟨st, -, -, -, hqueue⟩
  · rw [burden, burden, hqueue, hq, List.map_cons, List.sum_cons]
    omega
  · have hstep : Contained mode U Q (Propagation.step mode t run) := h.toContained.step hq
    have hlen := hstep.length_queue_le
    have hqueued (z : StatementId) : z ∈ (Propagation.step mode t run).queue →
        z ∈ rest ∨ run.engine.store.Affects mode x z := mem_queue_step hq
    rw [hqueue] at hlen hqueued
    rw [List.length_append] at hlen
    rw [burden, burden, hqueue, hq, List.map_append, List.sum_append, List.map_cons, List.sum_cons,
      Nat.add_comm]
    -- what is new in the queue counts for less than the statement that has left it
    refine Nat.add_lt_add_right (sum_map_lt hpos (n := U.length) (by omega) fun z hz => ?_) _
    have hz : run.engine.store.Affects mode x z :=
      (hqueued z (List.mem_append_right _ hz)).resolve_left (Walk.mem_unseen.1 hz).2
    rw [← Nat.pow_succ']
    have hx : Q x := (h.queue x (hq ▸ List.mem_cons_self)).1
    exact Nat.pow_le_pow_right (Nat.succ_pos _) (h.descends x z hx hz)

end Propagation

namespace Store

variable {s : Store} {mode : PropagationMode} {x : StatementId}

/-- The statements that a propagation from the seeds may look at. -/
def SpreadsTo (mode : PropagationMode) (s : Store) (seeds : List StatementId) (x : StatementId) :
    Prop :=
  ∃ a ∈ seeds, Relation.ReflTransGen (s.Affects mode) a x

theorem not_circular_of_unsolved (hi : s.Indexed)
    (hdep : ∀ x c d, s.graph x = some c → d ∈ c.dependencies → d < x)
    (hmode : mode.solved = false) : ¬Relation.TransGen (s.Affects mode) x x := by
  have hstep (x z : StatementId) (h : s.Affects mode x z) : x < z := by
    obtain ⟨st, hst, hz⟩ := h
    simp only [Propagation.affected, hmode, List.append_nil, hi.keyed x st hst] at hz
    obtain ⟨c, hc, hx⟩ := hi.mem_dependentsOf.1 hz
    exact hdep z c x hc hx
  have hlt (x z : StatementId) (h : Relation.TransGen (s.Affects mode) x z) : x < z := by
    induction h with
    | single h => exact hstep _ _ h
    | tail _ h ih => exact Nat.lt_trans ih (hstep _ _ h)
  exact fun h => Nat.lt_irrefl _ (hlt x x h)

end Store

namespace Engine

open Store Propagation

variable {e : Engine} {mode : PropagationMode} {t : TransactionId} {seeds : List StatementId}

theorem contained_spreadsTo (hi : e.store.Indexed) :
    Contained mode (e.store.ids ++ Walk.unseen [] seeds) (e.store.SpreadsTo mode seeds)
      { engine := e, queue := Walk.unseen [] seeds } := by
  refine contained_start hi (fun z hz => ⟨z, hz, .refl⟩) ?_
  rintro x z ⟨a, ha, hx⟩ hz
  exact ⟨a, ha, hx.tail hz⟩

theorem rests_of_ends {steps : Nat} (hi : e.store.Indexed)
    (h : (drain mode t steps { engine := e, queue := Walk.unseen [] seeds }).queue = []) :
    (e.propagation mode t seeds).queue = [] := by
  have hempty := empty_of_ends (contained_spreadsTo hi) h
  rwa [List.length_append, length_ids] at hempty

theorem rests_of_oneWay {up : Bool} (hi : e.store.Indexed)
    (h : ∀ x st, e.store.SpreadsTo mode seeds x → e.store.get? x = some st → st.proved = up →
      e.store.holds st = up) : (e.propagation mode t seeds).queue = [] :=
  (OneWay.drain ⟨contained_spreadsTo hi, h⟩ potential_start_le).2

/-- A propagation ends if nothing that it may look at supports itself. -/
theorem rests_of_acyclic (hi : e.store.Indexed)
    (h : ∀ x, e.store.SpreadsTo mode seeds x → ¬Relation.TransGen (e.store.Affects mode) x x) :
    (e.propagation mode t seeds).queue = [] := by
  have hlive (x z : StatementId) (hz : e.store.Affects mode x z) : z ∈ e.store.ids :=
    live_of_mem_supported hi (hz.mem_supported hi)
  obtain ⟨rank, hrank⟩ := exists_rank hlive h
  have hcontained : Contained mode (e.store.ids ++ Walk.unseen [] seeds)
      (e.store.SpreadsTo mode seeds) { engine := e, queue := Walk.unseen [] seeds } :=
    contained_spreadsTo hi
  have hdescending : Descending mode rank (e.store.ids ++ Walk.unseen [] seeds)
      (e.store.SpreadsTo mode seeds) { engine := e, queue := Walk.unseen [] seeds } :=
    ⟨hcontained, fun x z hx hz => hrank x z (hcontained.covers x z hx hz) hz⟩
  have hstep (run : Propagation) (x : StatementId) (rest : List StatementId)
      (h : Descending mode rank (e.store.ids ++ Walk.unseen [] seeds)
        (e.store.SpreadsTo mode seeds) run) (hq : run.queue = x :: rest) :=
    And.intro (h.step (t := t) hq) (h.burden_step_lt (t := t) hq)
  exact rests_of_ends hi (drain_empties hdescending hstep (Nat.le_refl _)).2

/-- A propagation ends in the steps it is granted or never, and ends but for a ring of support. -/
theorem propagation_rests {config : Config} {start : Engine}
    (hcreate : create config .absent = .ok start) (ops : List Op) (P : StatementId → Bool)
    (mode : PropagationMode) (t : TransactionId) (seeds : List StatementId) :
    let built := Op.runAll start ops
    let e := { built with store := built.store.withFlags P }
    ((e.propagation mode t seeds).queue = [] ↔
        ∃ steps, (drain mode t steps { engine := e, queue := Walk.unseen [] seeds }).queue = []) ∧
      ((e.propagation mode t seeds).queue ≠ [] →
        (∃ x, e.store.SpreadsTo mode seeds x ∧ Relation.TransGen (e.store.Affects mode) x x) ∧
        (∃ x st, e.store.SpreadsTo mode seeds x ∧ e.store.get? x = some st ∧ st.proved = true ∧
          e.store.holds st = false) ∧
        ∃ x st, e.store.SpreadsTo mode seeds x ∧ e.store.get? x = some st ∧ st.proved = false ∧
          e.store.holds st = true) ∧
      (Reached (fun e op => op.Sequential e ∧ op.Faithful e) built → mode.solved = false →
        (e.propagation mode t seeds).queue = []) := by
  intro built e
  have hbuilt : built.store.Indexed := ((orderly_create hcreate).runAll ops).filed.indexed
  have hi : e.store.Indexed := hbuilt.withFlags
  refine ⟨⟨fun h => ⟨_, h⟩, fun h => h.elim fun _ => rests_of_ends hi⟩,
    fun hbusy => ⟨?_, ?_, ?_⟩, ?_⟩
  · by_contra hacyclic
    exact hbusy (rests_of_acyclic hi fun x hx hcircle => hacyclic ⟨x, hx, hcircle⟩)
  · by_contra hset
    refine hbusy (@rests_of_oneWay _ _ _ _ true hi fun x st hx hst hproved => ?_)
    by_contra hfails
    exact hset ⟨x, st, hx, hst, hproved, Bool.eq_false_iff.2 hfails⟩
  · by_contra hunset
    refine hbusy (@rests_of_oneWay _ _ _ _ false hi fun x st hx hst hunproved => ?_)
    by_contra hholds
    exact hunset ⟨x, st, hx, hst, hunproved, Bool.eq_true_of_not_eq_false hholds⟩
  · intro hreached hmode
    obtain ⟨H, hsession⟩ := hreached.session (fun _ _ hop => hop.1) (fun _ _ hop => hop.2.offers)
    refine rests_of_acyclic hi fun x _ => not_circular_of_unsolved hi (fun x c d hc hd => ?_) hmode
    have hgraph : e.store.graph = built.store.graph := graph_withFlags
    rw [hgraph] at hc
    exact ((hsession.lawful x c (hsession.maintained.sub x c hc)).dependency d hd).1

end Engine

/-- A context that asks for `A`, and a ring of consequences that solves it. -/
def supportRing : List Op :=
  [.begin none,
    .createRoot ⟨1⟩ (.function ⟨0⟩ (.function ⟨1⟩ (.atom "A") (.atom "B"))
      (.function ⟨2⟩ (.function ⟨3⟩ (.atom "B") (.atom "A")) (.atom "Z"))),
    .openNested ⟨1⟩ (.after 0) (.atom "A"),
    .declare ⟨1⟩ (.after 0) (.apply (.var (.after 1) (.function ⟨1⟩ (.atom "A") (.atom "B")))
      (.var (.after 3) (.atom "A"))),
    .declare ⟨1⟩ (.after 0) (.apply (.var (.after 2) (.function ⟨3⟩ (.atom "B") (.atom "A")))
      (.var (.after 4) (.atom "B")))]

/-- The ring with the flags of the assumptions and of the context set, and no others. -/
def unevenRing : Engine :=
  let built := Op.runAll (.inMemory {}) supportRing
  { built with store := built.store.withFlags fun x => x.raw ∈ [2, 3, 4] }

theorem reached_supportRing : Reached (fun e op => op.Sequential e ∧ op.Faithful e)
    (Op.runAll (.inMemory {}) supportRing) :=
  reached_of_succeed (by decide +kernel)

/-- Where contexts are left alone, the ring comes to rest. -/
theorem unevenRing_rests : unevenRing.store.inconsistent = [.after 3, .after 4] ∧
    (unevenRing.propagation ⟨false, true⟩ ⟨1⟩ [.after 4, .after 3]).queue = [] := by
  have hstart : Engine.create {} .absent = .ok (.inMemory {}) := rfl
  exact ⟨by decide +kernel, (Engine.propagation_rests hstart supportRing
    (fun x => x.raw ∈ [2, 3, 4]) ⟨false, true⟩ ⟨1⟩ [.after 4, .after 3]).2.2 reached_supportRing
    rfl⟩

/-- Around the ring a set and a missing flag follow one another for ever. -/
theorem unevenRing_restless :
    unevenRing.store.isProved (.after 3) = true ∧ unevenRing.store.isProved (.after 4) = false ∧
      ∀ steps, (Propagation.drain ⟨true, true⟩ ⟨1⟩ steps
        { engine := unevenRing, queue := Walk.unseen [] [.after 4, .after 3] }).queue ≠ [] := by
  have hstart : Engine.create {} .absent = .ok (.inMemory {}) := rfl
  have hi : unevenRing.store.Indexed :=
    ((Engine.orderly_create hstart).runAll supportRing).filed.indexed.withFlags
      (P := fun x => x.raw ∈ [2, 3, 4])
  refine ⟨by decide +kernel, by decide +kernel, ?_⟩
  exact (Engine.contained_spreadsTo hi).restless (p := 6) (by decide) (by decide)
    (by decide +kernel) (by decide +kernel)

end StatementGraph
