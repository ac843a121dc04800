import StatementGraph.Proofs.AuthorityRecovery
import StatementGraph.Proofs.Deletion
import StatementGraph.Proofs.Pairing
import StatementGraph.Proofs.Within

namespace StatementGraph

/-- What two entries of the undo log restore is not the same. -/
def Deleted.Apart (d d' : Deleted) : Prop := d.ids.Disjoint d'.ids

theorem Deleted.Apart.symm {d d' : Deleted} (h : d.Apart d') : d'.Apart d :=
  fun _ hx hx' => h hx' hx

theorem Graph.Paired.live_with {s : Store} {st : Statement} {x y : StatementId}
    (h : s.graph.Paired) (hx : s.get? x = some st) (hy : y = x ∨ y ∈ st.assumptions) :
    ∃ sy, s.get? y = some sy := by
  rcases hy with rfl | hy
  · exact ⟨st, hx⟩
  · rw [← Statement.assumptions_content] at hy
    obtain ⟨a, ha, -⟩ := h.listed x st.content y (Store.graph_of_get? hx) hy
    obtain ⟨sy, hsy, -⟩ := Store.graph_eq_some.1 ha
    exact ⟨sy, hsy⟩

theorem Engine.Erased.graph_with {t : TransactionId} {x : StatementId} {e e' : Engine}
    {st : Statement} (h : Erased t (st.assumptions ++ [x]) e e') (y : StatementId) :
    e'.store.graph y =
      if y = x ∨ y ∈ st.content.assumptions then none else e.store.graph y := by
  rw [Store.graph, Store.graph, h.records, Statement.assumptions_content]
  by_cases hy : y = x ∨ y ∈ st.assumptions
  · rw [if_pos hy, if_pos (List.mem_append.2 (hy.symm.imp_right List.mem_singleton.2))]
    rfl
  · have hout : y ∉ st.assumptions ++ [x] := fun hmem =>
      hy ((List.mem_append.1 hmem).symm.imp_left List.mem_singleton.1)
    rw [if_neg hy, if_neg hout]

def Op.removes : Op → Bool
  | removeStatements .. | removeRoot .. | removeCascade .. => true
  | _ => false

namespace Removal

open Engine Store

variable {t : TransactionId} {S : Engine} {r : Removal} {x top : StatementId}

/-- A removal against the engine it started from. -/
structure Withdraws (t : TransactionId) (S : Engine) (r : Removal) : Prop where
  strips : Strips S r
  evolves : Evolves t S r.engine
  allocator : r.engine.store.allocator = S.store.allocator
  indexed : r.engine.store.Indexed
  paired : r.engine.store.graph.Paired
  authority : ∀ x a, r.engine.store.authority? x = some a → S.store.authority? x = some a
  listed : ∀ d ∈ r.batch, ∀ st ∈ d.assumptions, st.id ∈ d.statement.assumptions
  taken : ∀ d ∈ r.batch, ∀ x ∈ d.ids,
    r.engine.store.get? x = none ∧ ∃ st, S.store.get? x = some st
  disjoint : r.batch.Pairwise Deleted.Apart

theorem withdraws_start (ho : S.Orderly) (hp : S.store.graph.Paired) :
    Withdraws t S { engine := S } where
  strips := strips_start S
  evolves := .refl t S
  allocator := rfl
  indexed := ho.filed.indexed
  paired := hp
  authority _ _ ha := ha
  listed _ hd := by cases hd
  taken _ hd := by cases hd
  disjoint := .nil

def Plain (S : Engine) (x : StatementId) : Prop :=
  ∀ st, S.store.get? x = some st → st.isAssumption = false

theorem Withdraws.removeOne (h : Withdraws t S r) (ho : S.Orderly) (hplain : Plain S x) :
    Withdraws t S (r.removeOne t x) := by
  have hstrips := h.strips.removeOne (t := t) (x := x) ho
  cases hx : r.engine.store.get? x with
  | none =>
    rw [Removal.removeOne, hx]
    exact h
  | some st =>
    obtain ⟨hstart, -⟩ := h.strips.left x st hx
    have hid := ho.filed.indexed.keyed x st hstart
    have hself : x ∉ st.assumptions := by
      rw [← hid]
      exact ho.apart x st hstart
    obtain ⟨e', assumptions, gone, hrun, herased, hmem⟩ := removeOne_apart (t := t) hx hself
    rw [hrun] at hstrips ⊢
    have hids (y : StatementId)
        (hy : y ∈ Deleted.ids ⟨st, assumptions, r.engine.store.authority? x⟩) :
        y = x ∨ y ∈ st.assumptions := by
      rw [← hid]
      exact List.mem_cons.1 hy
    refine ⟨hstrips, h.evolves.trans herased.evolves, herased.allocator.trans h.allocator,
      herased.indexed h.indexed, ?_, fun y a ha => h.authority y a (herased.authority y a ha).1,
      fun d hd => ?_, fun d hd => ?_, ?_⟩
    · exact h.paired.leave (graph_of_get? hx)
        (Statement.not_isAssumption_content (hplain st hstart)) herased.graph_with
    · rcases List.mem_append.1 hd with hold | hnew
      · exact h.listed d hold
      · cases List.mem_singleton.1 hnew
        intro sa hsa
        obtain ⟨y, hy, hget⟩ := hmem sa hsa
        rw [h.indexed.keyed y sa hget]
        exact hy
    · rcases List.mem_append.1 hd with hold | hnew
      · intro y hy
        obtain ⟨hdead, hstart⟩ := h.taken d hold y hy
        refine ⟨(herased.records y).trans ?_, hstart⟩
        split
        · rfl
        · exact hdead
      · cases List.mem_singleton.1 hnew
        intro y hy
        have hy := hids y hy
        obtain ⟨sy, hsy⟩ := h.paired.live_with hx hy
        refine ⟨(herased.records y).trans (if_pos ?_), sy, (h.strips.left y sy hsy).1⟩
        exact List.mem_append.2 (hy.symm.imp_right List.mem_singleton.2)
    · rw [List.pairwise_append]
      refine ⟨h.disjoint, List.pairwise_singleton _ _, fun d hd d' hd' y hy hy' => ?_⟩
      cases List.mem_singleton.1 hd'
      obtain ⟨sy, hsy⟩ := h.paired.live_with hx (hids y hy')
      cases hsy.symm.trans (h.taken d hd y hy).1

theorem Withdraws.removeTree (h : Withdraws t S r) (ho : S.Orderly) (hplain : Plain S top) :
    Withdraws t S (r.removeTree t top) := by
  have horder (y : StatementId) (hy : y ∈ r.engine.store.removalOrder top) : Plain S y := by
    rcases (mem_removalOrder h.indexed).1 hy with rfl | ⟨-, st, hst, hnot⟩
    · exact hplain
    · intro st' hst'
      cases hst'.symm.trans (h.strips.left y st hst).1
      exact hnot
  rw [Removal.removeTree]
  generalize r.engine.store.removalOrder top = l at horder
  induction l generalizing r with
  | nil => exact h
  | cons y rest ih =>
    exact ih (h.removeOne ho (horder y List.mem_cons_self)) fun z hz =>
      horder z (List.mem_cons_of_mem _ hz)

/-- A removal that has taken out whole trees. -/
structure Vacates (t : TransactionId) (S : Engine) (r : Removal) : Prop
    extends Withdraws t S r where
  owned : S.store.graph.Owned → r.engine.store.graph.Owned

theorem vacates_start (ho : S.Orderly) (hp : S.store.graph.Paired) :
    Vacates t S { engine := S } := ⟨withdraws_start ho hp, id⟩

theorem Vacates.removeTree (h : Vacates t S r) (ho : S.Orderly) (hplain : Plain S top) :
    Vacates t S (r.removeTree t top) := by
  refine ⟨h.toWithdraws.removeTree ho hplain, fun hS => ?_⟩
  refine (housed_removeTree h.indexed (h.paired.housed (h.owned hS)) fun st hst => ?_).owned
  exact hplain st (h.strips.left top st hst).1

theorem Vacates.removeTrees {tops : List StatementId} (h : Vacates t S r) (ho : S.Orderly)
    (hplain : ∀ top ∈ tops, Plain S top) : Vacates t S (tops.foldl (Removal.removeTree t) r) := by
  induction tops generalizing r with
  | nil => exact h
  | cons top rest ih =>
    exact ih (h.removeTree ho (hplain top List.mem_cons_self)) fun y hy =>
      hplain y (List.mem_cons_of_mem _ hy)

theorem Withdraws.plain_unit {u : StatementId} (h : Withdraws t S r)
    (hu : u ∈ r.engine.store.unitsOn top) : Plain S u := by
  have hunit (y : StatementId) (hy : r.engine.store.unitOf y = some u) : Plain S u := by
    obtain ⟨sy, hsy, hy⟩ := Option.bind_eq_some_iff.1 hy
    have hleft {v : StatementId} {sv : Statement} (hv : r.engine.store.get? v = some sv)
        (hnot : sv.isAssumption = false) : Plain S v := by
      intro sv' hsv'
      cases hsv'.symm.trans (h.strips.left v sv hv).1
      exact hnot
    split at hy
    case isTrue hassumption =>
      obtain ⟨o, c, howner, hc, hmem⟩ := h.paired.lister y sy.content (graph_of_get? hsy)
        (Statement.isAssumption_iff.1 hassumption)
      cases hy.symm.trans howner
      obtain ⟨su, hsu, rfl⟩ := graph_eq_some.1 hc
      refine hleft hsu (Bool.eq_false_iff.2 fun hnot => ?_)
      have hcontent : su.content.IsAssumption := Statement.isAssumption_iff.1 hnot
      exact hcontent.lists_nothing hmem
    case isFalse hnot =>
      cases hy
      exact hleft hsy (Bool.eq_false_iff.2 hnot)
  rw [unitsOn] at hu
  split at hu
  · cases hu
  · obtain ⟨y, -, hy⟩ := List.mem_filterMap.1 hu
    exact hunit y hy

theorem Vacates.cascade {stack visited : List StatementId} (h : Vacates t S r) (ho : S.Orderly)
    (hplain : ∀ top ∈ stack, Plain S top) (steps : Nat) :
    Vacates t S (Removal.cascade t steps visited stack r) := by
  induction steps generalizing r stack visited with
  | zero => exact h
  | succ steps ih =>
    cases stack with
    | nil => exact h
    | cons top stack =>
      obtain ⟨htop, hstack⟩ := List.forall_mem_cons.1 hplain
      rw [Removal.cascade]
      split
      · split
        · rename_i unit hunit
          have hnew := h.plain_unit (List.mem_of_find?_eq_some hunit)
          exact ih h (List.forall_mem_cons.2 ⟨hnew, hplain⟩)
        · exact ih (h.removeTree ho htop) hstack
      · exact ih h hstack

end Removal

namespace Engine

open Store Removal

variable {t : TransactionId} {e e' : Engine} {x : StatementId}

/-- Locks are taken, and nothing is done to the store. -/
structure Locks (t : TransactionId) (e e' : Engine) : Prop where
  store : e'.store = e.store
  evolves : Evolves t e e'

instance isPreorder_locks : IsPreorder Engine (Locks t) where
  refl e := ⟨rfl, .refl t e⟩
  trans _ _ _ h h' := ⟨h'.store.trans h.store, h.evolves.trans h'.evolves⟩

theorem locks_lock : Within (Locks t) e (lock t x) := by
  apply within_ensureOpen_bind
  apply within_get_bind
  split
  · exact within_set ⟨store_onTransaction, evolves_hold⟩
  · exact within_throw

/-- A removal is refused, or keeps what it took in a batch of the transaction. -/
inductive Evicts (t : TransactionId) (e : Engine) : Engine → Prop where
  | refused {e' : Engine} (h : Locks t e e') : Evicts t e e'
  | done {S e' : Engine} {r : Removal} (hlocks : Locks t e S) (ho : S.Orderly)
      (h : Vacates t S r) (he : Evolves t r.engine e')
      (hr : r.engine.store.Reflagged e'.store) :
      Evicts t e (e'.onTransaction t (·.addDeletions r.batch))

theorem evicts_carryOut {ids : IdSet} {work : Removal → Removal} (ho : e.Orderly)
    (hwork : ∀ S : Engine, S.Orderly → S.store = e.store → ∃ r, Vacates t S r ∧
      (work { engine := S } = r ∨ work { engine := S } = r.recheck t)) :
    Evicts t e ((do
      lockAll t ids
      carryOut t work : Action (List StatementId)).perform e).2 := by
  have hlocks : Within (Locks t) e (lockAll t ids) := within_forM fun _ _ _ => locks_lock
  have hlockAll : Moves t e (lockAll t ids) := moves_lockAll
  have hmoves := ho.changes (hlockAll ho)
  rw [Within] at hlocks
  rw [perform_bind]
  cases hlock : (lockAll t ids).perform e with
  | mk result S =>
    rw [hlock] at hlocks hmoves
    cases result with
    | error f => exact .refused hlocks
    | ok u =>
      obtain ⟨r, hr, hlast⟩ := hwork S hmoves hlocks.store
      change Evicts t e ((work { engine := S }).record t)
      rcases hlast with hlast | hlast
      · rw [hlast]
        exact .done hlocks hmoves hr (.refl t _) (.refl _)
      · rw [hlast, record, recheck]
        split
        · exact .done hlocks hmoves hr (.refl t _) (.refl _)
        · exact .done (r := r) hlocks hmoves hr evolves_rederive (reflagged_rederive hr.indexed)

instance refl_evicts : Std.Refl (Evicts t) where
  refl e := .refused (refl_of (Locks t) e)

theorem evicts_throw_bind {α β : Type} {f : Failure} {k : α → Action β} :
    Within (Evicts t) e (throw f >>= k) := refl_of (Evicts t) e

theorem plain_of_get? {S : Engine} {st : Statement} (hstore : S.store = e.store)
    (hst : e.store.get? x = some st) (hnot : st.isAssumption = false) : Plain S x := by
  intro st' hst'
  rw [hstore] at hst'
  cases hst'.symm.trans hst
  exact hnot

theorem evicts_removeStatements {context : StatementId} {ids : List StatementId} (ho : e.Orderly)
    (hp : e.store.graph.Paired) : Within (Evicts t) e (removeStatements t context ids) := by
  apply within_ensureOpen_bind
  apply within_get_bind
  apply within_lift_bind
  intro _ _
  apply within_lift_bind
  intro removal hremoval
  dsimp only
  split
  · exact evicts_throw_bind
  · apply evicts_carryOut ho
    intro S hS hstore
    refine ⟨_, (vacates_start hS (hstore ▸ hp)).removeTrees hS fun y hy => ?_, Or.inr rfl⟩
    obtain ⟨st, hst, hnot, -⟩ := (removalOf_eq_ok hremoval).1 y (mem_reverse_dependencySorted.1 hy)
    exact plain_of_get? hstore hst hnot

theorem evicts_removeRoot {root : StatementId} (ho : e.Orderly) (hp : e.store.graph.Paired) :
    Within (Evicts t) e (removeRoot t root) := by
  apply within_ensureOpen_bind
  apply within_get_bind
  apply within_lift_bind
  intro st hst
  obtain ⟨hst, hcontext⟩ := requireContext_eq_ok.1 hst
  dsimp only
  split
  · exact evicts_throw_bind
  · split
    · exact evicts_throw_bind
    · apply evicts_carryOut ho
      intro S hS hstore
      refine ⟨_, (vacates_start hS (hstore ▸ hp)).removeTree hS ?_, Or.inl rfl⟩
      exact plain_of_get? hstore hst (Statement.isAssumption_of_isContext hcontext)

theorem evicts_removeCascade {context id : StatementId} (ho : e.Orderly)
    (hp : e.store.graph.Paired) : Within (Evicts t) e (removeCascade t context id) := by
  apply within_ensureOpen_bind
  apply within_get_bind
  apply within_lift_bind
  intro sc hsc
  obtain ⟨hsc, hcontext⟩ := requireContext_eq_ok.1 hsc
  apply within_lift_bind
  intro st hst
  dsimp only
  split
  · exact evicts_throw_bind
  · apply evicts_carryOut ho
    intro S hS hstore
    refine ⟨_, (vacates_start hS (hstore ▸ hp)).cascade hS (fun y hy => ?_) _, Or.inr rfl⟩
    rw [List.mem_singleton.1 hy]
    split
    · exact plain_of_get? hstore hsc (Statement.isAssumption_of_isContext hcontext)
    case isFalse hnot =>
      exact plain_of_get? hstore (require_eq_ok.1 hst) (Bool.eq_false_iff.2 hnot)

theorem evicts_run {op : Op} (ho : e.Orderly) (hp : e.store.graph.Paired)
    (hclient : op.client? = some t) (hremoves : op.removes = true) : Evicts t e (op.run e).2 := by
  cases op with
  | removeStatements => cases hclient; exact evicts_removeStatements ho hp
  | removeRoot => cases hclient; exact evicts_removeRoot ho hp
  | removeCascade => cases hclient; exact evicts_removeCascade ho hp
  | _ => cases hremoves

end Engine

end StatementGraph
