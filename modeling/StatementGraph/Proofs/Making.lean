import StatementGraph.Proofs.Checking
import StatementGraph.Proofs.Entering
import StatementGraph.Proofs.Growth

namespace StatementGraph

namespace Engine

open Store

variable {t : TransactionId} {e e' : Engine} {context x : StatementId} {α β : Type}

/-! ### Actions that succeed -/

theorem isOk_iff_performs {m : Action α} :
    (m.perform e).1.isOk = true ↔ ∃ v e', m.perform e = (.ok v, e') := by
  cases m.perform e with
  | mk r e' =>
    cases r with
    | error f =>
      constructor
      · intro h
        cases h
      · rintro ⟨v, e₁, h⟩
        cases h
    | ok v => exact ⟨fun _ => ⟨v, e', rfl⟩, fun _ => rfl⟩

theorem lift_bind_performs {y : Except Failure α} {k : α → Action β} {v : β} :
    (liftM y >>= k).perform e = (.ok v, e') ↔ ∃ a, y = .ok a ∧ (k a).perform e = (.ok v, e') := by
  cases y with
  | error f =>
    constructor
    · intro h
      cases h
    · rintro ⟨a, h, -⟩
      cases h
  | ok a =>
    rw [perform_ok_bind]
    constructor
    · exact fun h => ⟨a, rfl, h⟩
    · rintro ⟨b, h, hk⟩
      cases h
      exact hk

theorem ensureOpen_bind_performs {k : Unit → Action β} {v : β} :
    (ensureOpen t >>= k).perform e = (.ok v, e') ↔
      e.isOpen t = true ∧ (k ()).perform e = (.ok v, e') := by
  rw [ensureOpen]
  by_cases hopen : e.isOpen t = true
  · rw [bind_assoc, perform_get_bind, if_pos hopen]
    exact (and_iff_right hopen).symm
  · rw [bind_assoc, perform_get_bind, if_neg hopen]
    exact ⟨fun h => (by cases h), fun h => absurd h.1 hopen⟩

theorem store_allocate (h : allocate.perform e = (.ok x, e')) :
    e'.store.statements = e.store.statements ∧ e'.store.index = e.store.index := by
  obtain ⟨b, -, rfl⟩ := allocate_performs.1 h
  exact ⟨rfl, rfl⟩

theorem get?_allocate (h : allocate.perform e = (.ok x, e')) : e'.store.get? = e.store.get? :=
  funext fun y => by rw [Store.get?, Store.get?, (store_allocate h).1]

theorem graph_allocate (h : allocate.perform e = (.ok x, e')) : e'.store.graph = e.store.graph :=
  funext fun y => by rw [graph, graph, get?_allocate h]

/-! ### Requests that pass their checks -/

/-- A request passes its checks, whether or not it comes back. -/
def Accepted {α : Type} (y : Except Failure α) : Prop :=
  ∀ f, y = .error f → f.breakdown? ≠ none

theorem accepted_ok (a : α) : Accepted (.ok a) := fun _ h => by cases h

theorem accepted_error {f : Failure} :
    Accepted (.error f : Except Failure α) ↔ f.breakdown? ≠ none := by
  refine ⟨fun h => h f rfl, fun h f' hf => ?_⟩
  cases hf
  exact h

theorem isOk_iff_accepted {y : Except Failure α} :
    y.isOk = true ↔ Accepted y ∧ Answered y := by
  cases y with
  | error f =>
    refine iff_of_false (fun h => (by cases h)) fun h => h.1 f rfl (h.2 f rfl)
  | ok a => exact iff_of_true rfl ⟨accepted_ok a, answered_ok a⟩

theorem answered_of_accepted {y : Except Failure α} (h : Accepted y → y.isOk = true) :
    Answered y := by
  rintro f rfl
  by_contra hf
  cases h (accepted_error.2 hf)

theorem accepted_bind {m : Action α} {k : α → Action β} (hm : Answered (m.perform e).1) :
    Accepted ((m >>= k).perform e).1 ↔
      ∃ a e₁, m.perform e = (.ok a, e₁) ∧ Accepted ((k a).perform e₁).1 := by
  rw [perform_bind]
  cases hrun : m.perform e with
  | mk r e₁ =>
    rw [hrun] at hm
    cases r with
    | error f =>
      refine iff_of_false (fun h => h f rfl (hm f rfl)) ?_
      rintro ⟨a, e₂, h, -⟩
      cases h
    | ok a =>
      refine ⟨fun h => ⟨a, e₁, rfl, h⟩, ?_⟩
      rintro ⟨b, e₂, h, hk⟩
      cases h
      exact hk

theorem accepted_lift_bind {y : Except Failure α} {k : α → Action β} (hy : Answered y) :
    Accepted ((liftM y >>= k).perform e).1 ↔ ∃ a, y = .ok a ∧ Accepted ((k a).perform e).1 := by
  cases y with
  | error f =>
    refine iff_of_false (fun h => h f rfl (hy f rfl)) ?_
    rintro ⟨a, h, -⟩
    cases h
  | ok a =>
    rw [perform_ok_bind]
    refine ⟨fun h => ⟨a, rfl, h⟩, ?_⟩
    rintro ⟨b, h, hk⟩
    cases h
    exact hk

theorem accepted_ensureOpen_bind {k : Unit → Action β} :
    Accepted ((ensureOpen t >>= k).perform e).1 ↔
      e.isOpen t = true ∧ Accepted ((k ()).perform e).1 := by
  rw [ensureOpen]
  by_cases hopen : e.isOpen t = true
  · rw [bind_assoc, perform_get_bind, if_pos hopen]
    exact (and_iff_right hopen).symm
  · rw [bind_assoc, perform_get_bind, if_neg hopen]
    exact iff_of_false (fun h => h _ rfl rfl) fun h => hopen h.1

theorem accepted_await (run : Propagation) : Accepted ((await run).perform e).1 := by
  rcases await_cases run e with hrun | hrun <;> rw [hrun]
  · exact accepted_ok ()
  · exact accepted_error.2 fun h => by cases h

theorem answered_allocate : Answered (allocate.perform e).1 := by
  rw [allocate, perform_get_bind]
  cases e.store.allocate with
  | mk result store =>
    cases result with
    | ok x => exact answered_ok x
    | error f => exact answered_error rfl

/-! ### New statements -/

theorem newStatement_performs {insert : StatementId → Action Unit} : Action.perform (do
      let id ← allocate
      insert id
      return id) e = (.ok x, e') ↔
    ∃ e₀, allocate.perform e = (.ok x, e₀) ∧ (insert x).perform e₀ = (.ok (), e') := by
  rw [bind_performs]
  constructor
  · rintro ⟨id, e₀, hid, h⟩
    obtain ⟨u, e₁, hinsert, h⟩ := bind_performs.1 h
    cases h
    exact ⟨e₀, hid, hinsert⟩
  · rintro ⟨e₀, hid, hinsert⟩
    exact ⟨x, e₀, hid, bind_performs.2 ⟨(), e', hinsert, rfl⟩⟩

theorem accepted_newStatement {insert : StatementId → Action Unit} : Accepted (Action.perform (do
      let id ← allocate
      insert id
      return id) e).1 ↔
    ∃ x e₀, allocate.perform e = (.ok x, e₀) ∧ Accepted ((insert x).perform e₀).1 := by
  rw [accepted_bind answered_allocate]
  refine exists_congr fun x => exists_congr fun e₀ => and_congr_right fun _ => ?_
  rw [perform_bind]
  cases (insert x).perform e₀ with
  | mk r e₁ =>
    cases r with
    | error f => exact accepted_error.trans accepted_error.symm
    | ok u => exact iff_of_true (accepted_ok x) (accepted_ok u)

theorem enter_performs {y : Except Failure Statement} :
    (liftM y >>= fun st => get >>= fun e => await (e.enter t st) : Action Unit).perform e =
        (.ok (), e') ↔
      ∃ st, y = .ok st ∧ (e.enter t st).queue = [] ∧ e' = (e.enter t st).engine := by
  rw [lift_bind_performs]
  refine exists_congr fun st => and_congr_right fun _ => ?_
  rw [perform_get_bind, await_performs]

theorem accepted_enter {y : Except Failure Statement} (hy : Answered y) :
    Accepted ((liftM y >>= fun st => get >>= fun e => await (e.enter t st) : Action Unit).perform
        e).1 ↔ ∃ st, y = .ok st := by
  rw [accepted_lift_bind hy]
  exact exists_congr fun st => and_iff_left (accepted_await _)

theorem graph_enter {st : Statement} :
    (e.enter t st).engine.store.graph = e.store.graph.set st.id (some st.content) := by
  rw [(reflagged_enter (t := t)).graph, writeAll, List.foldl_cons, List.foldl_nil, graph_write]

theorem get?_enter {st : Statement} : ∃ st', (e.enter t st).engine.store.get? st.id = some st' ∧
    st'.content = st.content := by
  refine graph_eq_some.1 ?_
  rw [graph_enter, Graph.set_self]

theorem declare_performs {value : Term} : (declare t context value).perform e = (.ok x, e') ↔
    e.isOpen t = true ∧ (∃ ctx, e.store.requireContext context = .ok ctx) ∧
      ∃ e₀, allocate.perform e = (.ok x, e₀) ∧
        ∃ st, e₀.store.declarationRecord context value x = .ok st ∧
          (e₀.enter t st).queue = [] ∧ e' = (e₀.enter t st).engine := by
  rw [declare, ensureOpen_bind_performs, perform_get_bind, lift_bind_performs, ← exists_and_right]
  refine and_congr_right fun _ => exists_congr fun ctx => and_congr_right fun _ => ?_
  rw [newStatement_performs]
  exact exists_congr fun e₀ => and_congr_right fun _ => enter_performs

theorem declare_accepted {value : Term} : Accepted ((declare t context value).perform e).1 ↔
    e.isOpen t = true ∧ (∃ ctx, e.store.requireContext context = .ok ctx) ∧
      ∃ x e₀, allocate.perform e = (.ok x, e₀) ∧
        ∃ st, e₀.store.declarationRecord context value x = .ok st := by
  rw [declare, accepted_ensureOpen_bind, perform_get_bind,
    accepted_lift_bind answered_requireContext, ← exists_and_right]
  refine and_congr_right fun _ => exists_congr fun ctx => and_congr_right fun _ => ?_
  rw [accepted_newStatement]
  exact exists_congr fun x => exists_congr fun e₀ => and_congr_right fun _ =>
    accepted_enter answered_declarationRecord

theorem declare_isOk {value : Term} {e₀ : Engine} {st : Statement} (hopen : e.isOpen t = true)
    (hctx : ∃ ctx, e.store.requireContext context = .ok ctx)
    (hnew : allocate.perform e = (.ok x, e₀))
    (hst : e₀.store.declarationRecord context value x = .ok st) :
    ((declare t context value).perform e).1.isOk = true ↔ (e₀.enter t st).queue = [] := by
  rw [isOk_iff_performs]
  constructor
  · rintro ⟨y, e', hrun⟩
    obtain ⟨-, -, e₁, hnew₁, st₁, hst₁, hrests, -⟩ := declare_performs.1 hrun
    cases hnew.symm.trans hnew₁
    cases hst.symm.trans hst₁
    exact hrests
  · intro hrests
    exact ⟨x, _, declare_performs.2 ⟨hopen, hctx, e₀, hnew, st, hst, hrests, rfl⟩⟩

theorem specialize_performs {general : StatementId} {argument : Term} :
    (specialize t context general argument).perform e = (.ok x, e') ↔
      e.isOpen t = true ∧ (∃ ctx, e.store.requireContext context = .ok ctx) ∧
        ∃ e₀, allocate.perform e = (.ok x, e₀) ∧
          ∃ st, e₀.store.specializationRecord context general argument x = .ok st ∧
            (e₀.enter t st).queue = [] ∧ e' = (e₀.enter t st).engine := by
  rw [specialize, ensureOpen_bind_performs, perform_get_bind, lift_bind_performs,
    ← exists_and_right]
  refine and_congr_right fun _ => exists_congr fun ctx => and_congr_right fun _ => ?_
  rw [newStatement_performs]
  exact exists_congr fun e₀ => and_congr_right fun _ => enter_performs

theorem specialize_accepted {general : StatementId} {argument : Term} :
    Accepted ((specialize t context general argument).perform e).1 ↔
      e.isOpen t = true ∧ (∃ ctx, e.store.requireContext context = .ok ctx) ∧
        ∃ x e₀, allocate.perform e = (.ok x, e₀) ∧
          ∃ st, e₀.store.specializationRecord context general argument x = .ok st := by
  rw [specialize, accepted_ensureOpen_bind, perform_get_bind,
    accepted_lift_bind answered_requireContext, ← exists_and_right]
  refine and_congr_right fun _ => exists_congr fun ctx => and_congr_right fun _ => ?_
  rw [accepted_newStatement]
  exact exists_congr fun x => exists_congr fun e₀ => and_congr_right fun _ =>
    accepted_enter answered_specializationRecord

theorem specialize_isOk {general : StatementId} {argument : Term} {e₀ : Engine} {st : Statement}
    (hopen : e.isOpen t = true) (hctx : ∃ ctx, e.store.requireContext context = .ok ctx)
    (hnew : allocate.perform e = (.ok x, e₀))
    (hst : e₀.store.specializationRecord context general argument x = .ok st) :
    ((specialize t context general argument).perform e).1.isOk = true ↔
      (e₀.enter t st).queue = [] := by
  rw [isOk_iff_performs]
  constructor
  · rintro ⟨y, e', hrun⟩
    obtain ⟨-, -, e₁, hnew₁, st₁, hst₁, hrests, -⟩ := specialize_performs.1 hrun
    cases hnew.symm.trans hnew₁
    cases hst.symm.trans hst₁
    exact hrests
  · intro hrests
    exact ⟨x, _, specialize_performs.2 ⟨hopen, hctx, e₀, hnew, st, hst, hrests, rfl⟩⟩

theorem insertContext_performs {owner : Option StatementId} {term : Term} {kind : ContextKind} :
    (insertContext t owner term kind x none).perform e = (.ok (), e') ↔
      ∃ dependencies inner ids e₁, e.store.unfold owner term kind = .ok (dependencies, inner) ∧
        (allocateMany inner.unproject.arity).perform e = (.ok ids, e₁) ∧
        (e₁.enterContext t (contextRecords owner term kind x dependencies inner ids).1
          (contextRecords owner term kind x dependencies inner ids).2).queue = [] ∧
        e' = (e₁.enterContext t (contextRecords owner term kind x dependencies inner ids).1
          (contextRecords owner term kind x dependencies inner ids).2).engine := by
  rw [insertContext, perform_get_bind, lift_bind_performs]
  constructor
  · rintro ⟨⟨dependencies, inner⟩, hunfold, h⟩
    obtain ⟨ids, e₁, hids, h⟩ := bind_performs.1 h
    exact ⟨dependencies, inner, ids, e₁, hunfold, hids, await_performs.1 h⟩
  · rintro ⟨dependencies, inner, ids, e₁, hunfold, hids, h⟩
    exact ⟨(dependencies, inner), hunfold, bind_performs.2 ⟨ids, e₁, hids, await_performs.2 h⟩⟩

theorem createRoot_performs {term : Term} : (createRoot t term).perform e = (.ok x, e') ↔
    e.isOpen t = true ∧ e.store.validate none term = .ok () ∧
      ∃ e₀, allocate.perform e = (.ok x, e₀) ∧
        (insertContext t none term .root x none).perform e₀ = (.ok (), e') := by
  rw [createRoot, ensureOpen_bind_performs, perform_get_bind, lift_bind_performs]
  refine and_congr_right fun _ => ?_
  rw [newStatement_performs]
  exact Unique.exists_iff

theorem openContext_performs {term : Term} {kind : ContextKind} :
    (openContext t context term kind).perform e = (.ok x, e') ↔
      e.isOpen t = true ∧ (∃ ctx, e.store.requireContext context = .ok ctx) ∧
        e.store.validate (some context) term = .ok () ∧
        ∃ e₀, allocate.perform e = (.ok x, e₀) ∧
          (insertContext t (some context) term kind x none).perform e₀ = (.ok (), e') := by
  rw [openContext, ensureOpen_bind_performs, perform_get_bind, lift_bind_performs,
    ← exists_and_right]
  refine and_congr_right fun _ => exists_congr fun ctx => and_congr_right fun _ => ?_
  rw [perform_get_bind, lift_bind_performs, newStatement_performs]
  exact Unique.exists_iff

end Engine

end StatementGraph
