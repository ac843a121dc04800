import StatementGraph.Proofs.Accounting
import StatementGraph.Proofs.Copying
import StatementGraph.Proofs.Making

namespace StatementGraph

namespace Engine

open Store

variable {t : TransactionId} {a : Allocator} {e e' : Engine} {x id : StatementId} {α β : Type}

/-! ### Making statements -/

/-- What is used up stays accounted for, also when the action fails, unless the ids run out. -/
def Retains (a : Allocator) (e : Engine) (m : Action α) : Prop :=
  Tallies a e → (m.perform e).1 = .error exhausted ∨ Tallies a (m.perform e).2

section Rules

variable {m : Action α} {k : α → Action β}

theorem retains_of_balances (h : Within (Balances a) e m) : Retains a e m :=
  fun hs => Or.inr (h hs).1

theorem retains_pure {v : α} : Retains a e (pure v) := retains_of_balances within_pure

theorem retains_throw {f : Failure} : Retains a e (throw f : Action α) :=
  retains_of_balances within_throw

theorem retains_bind (h : Retains a e m)
    (hk : ∀ v e', m.perform e = (.ok v, e') → Retains a e' (k v)) : Retains a e (m >>= k) := by
  intro hs
  have hfirst := h hs
  rw [perform_bind]
  cases hm : m.perform e with
  | mk r e' =>
    rw [hm] at hfirst
    cases r with
    | error f =>
      refine hfirst.imp_left fun hfail => ?_
      cases hfail
      rfl
    | ok v => exact hk v e' hm (hfirst.resolve_left fun hfail => by cases hfail)

theorem retains_get_bind {k : Engine → Action β} (h : Retains a e (k e)) :
    Retains a e (get >>= k) := h

theorem retains_lift_bind {y : Except Failure α} (hk : ∀ v, y = .ok v → Retains a e (k v)) :
    Retains a e (liftM y >>= k) := by
  cases y with
  | error f => exact retains_throw
  | ok v => exact hk v rfl

theorem retains_ensureOpen_bind {k : Unit → Action β} (h : Retains a e (k ())) :
    Retains a e (ensureOpen t >>= k) := by
  apply retains_bind (retains_of_balances within_ensureOpen)
  intro _ e' hrun
  rw [ensureOpen, perform_get_bind] at hrun
  split at hrun
  · cases hrun
    exact h
  · cases hrun

end Rules

theorem used_allocate (h : allocate.perform e = (.ok x, e')) :
    e'.store.graph = e.store.graph ∧ e'.store.allocator.Past x ∧
      ∀ y, e.store.allocator.Past y → e'.store.allocator.Past y ∧ y ≠ x := by
  obtain ⟨b, htake, rfl⟩ := allocate_performs.1 h
  obtain ⟨hpast, hx⟩ := Allocator.take_some htake
  refine ⟨rfl, hx, fun y hy => ⟨(hpast y hy).2, ?_⟩⟩
  rintro rfl
  exact Nat.lt_irrefl _ (hpast y hy).1

theorem retains_allocate : Retains a e allocate := by
  intro hs
  rw [allocate, perform_get_bind, Store.allocate]
  cases htake : e.store.allocator.take with
  | mk x? b =>
    cases x? with
    | none => exact Or.inl rfl
    | some y =>
      have hpast := (Allocator.take_some htake).1
      refine Or.inr ⟨hs.indexed.of_eq rfl rfl, fun x hx => (hpast x (hs.used x hx)).2, ?_⟩
      exact hs.accounted.mono (.refl _) fun x hx => (hpast x hx).2

theorem retains_allocateMany (n : Nat) : Retains a e (allocateMany n) := by
  induction n generalizing e with
  | zero => exact retains_pure
  | succ n ih =>
    exact retains_bind retains_allocate fun _ _ _ => retains_bind ih fun _ _ _ => retains_pure

theorem used_allocateMany {n : Nat} {ids : List StatementId}
    (h : (allocateMany n).perform e = (.ok ids, e')) :
    e'.store.graph = e.store.graph ∧ ids.length = n ∧ ids.Nodup ∧
      (∀ y ∈ ids, e'.store.allocator.Past y) ∧
      ∀ y, e.store.allocator.Past y → e'.store.allocator.Past y ∧ y ∉ ids := by
  induction n generalizing e ids with
  | zero =>
    cases h
    exact ⟨rfl, rfl, List.nodup_nil, fun _ hy => (by cases hy), fun _ hy => ⟨hy, List.not_mem_nil⟩⟩
  | succ n ih =>
    obtain ⟨x, e₁, hfirst, h⟩ := bind_performs.1 h
    obtain ⟨rest, e₂, hrest, h⟩ := bind_performs.1 h
    cases h
    obtain ⟨hgraph, hx, hold⟩ := used_allocate hfirst
    obtain ⟨hgraph', hlen, hnd, hids, hold'⟩ := ih hrest
    obtain ⟨hx', hout⟩ := hold' x hx
    refine ⟨hgraph'.trans hgraph, congrArg Nat.succ hlen, List.nodup_cons.2 ⟨hout, hnd⟩,
      fun y hy => ?_, fun y hy => ?_⟩
    · rcases List.mem_cons.1 hy with rfl | hy
      · exact hx'
      · exact hids y hy
    · obtain ⟨hpast, hne⟩ := hold y hy
      obtain ⟨hpast', hout'⟩ := hold' y hpast
      exact ⟨hpast', List.not_mem_cons_of_ne_of_not_mem hne hout'⟩

theorem fresh_ids {n : Nat} {ids : List StatementId} {e₁ : Engine}
    (hx : allocate.perform e = (.ok x, e')) (hids : (allocateMany n).perform e' = (.ok ids, e₁)) :
    ids.length = n ∧ (x :: ids).Nodup ∧ ∀ y ∈ x :: ids, ¬e.store.allocator.Past y := by
  obtain ⟨-, hlen, hnd, -, hout⟩ := used_allocateMany hids
  obtain ⟨-, hnow, hold⟩ := used_allocate hx
  refine ⟨hlen, List.nodup_cons.2 ⟨(hout x hnow).2, hnd⟩, fun y hy hused => ?_⟩
  obtain ⟨hpast, hne⟩ := hold y hused
  rcases List.mem_cons.1 hy with rfl | hy
  · exact hne rfl
  · exact (hout y hpast).2 hy

theorem retains_insertContext {owner : Option StatementId} {term : Term} {kind : ContextKind}
    (hid : e.store.allocator.Past id) :
    Retains a e (insertContext t owner term kind id none) := by
  apply retains_get_bind
  apply retains_lift_bind
  intro opened hunfold
  apply retains_bind (retains_allocateMany _)
  intro ids e' hrun
  obtain ⟨hgraph, -, -, hids, hold⟩ := used_allocateMany hrun
  have hunfolds := (unfold_eq_ok_visible hunfold).1
  rw [← hgraph] at hunfolds
  exact retains_get_bind
    (retains_of_balances (balances_contextRecords hunfolds (hold id hid).1 hids))

theorem retains_newContext {owner : Option StatementId} {term : Term} {kind : ContextKind} :
    Retains a e (do
      let id ← allocate
      insertContext t owner term kind id none
      return id) := by
  apply retains_bind retains_allocate
  intro id e' hrun
  exact retains_bind (retains_insertContext (used_allocate hrun).2.1) fun _ _ _ => retains_pure

theorem retains_createRoot {term : Term} : Retains a e (createRoot t term) :=
  retains_ensureOpen_bind <| retains_get_bind <| retains_lift_bind fun _ _ => retains_newContext

theorem retains_openContext {context : StatementId} {term : Term} {kind : ContextKind} :
    Retains a e (openContext t context term kind) :=
  retains_ensureOpen_bind <| retains_get_bind <| retains_lift_bind fun _ _ => retains_get_bind <|
    retains_lift_bind fun _ _ => retains_newContext

theorem retains_newStatement {insert : StatementId → Action Unit}
    (h : ∀ e id, e.store.allocator.Past id → Within (Balances a) e (insert id)) :
    Retains a e (do
      let id ← allocate
      insert id
      return id) := by
  apply retains_bind retains_allocate
  intro id e' hrun
  exact retains_bind (retains_of_balances (h e' id (used_allocate hrun).2.1))
    fun _ _ _ => retains_pure

theorem retains_declare {context : StatementId} {value : Term} :
    Retains a e (declare t context value) :=
  retains_ensureOpen_bind <| retains_get_bind <| retains_lift_bind fun _ _ =>
    retains_newStatement fun _ _ => balances_insertDeclaration

theorem retains_specialize {context general : StatementId} {argument : Term} :
    Retains a e (specialize t context general argument) :=
  retains_ensureOpen_bind <| retains_get_bind <| retains_lift_bind fun _ _ =>
    retains_newStatement fun _ _ => balances_insertSpecialization

end Engine

/-! ### Copies -/

namespace Copying

open Engine Store

variable {t : TransactionId} {a : Allocator} {e : Engine} {exclude : IdSet} {α β : Type}
  {m : Copying α} {k : α → Copying β}

/-- What is used up stays accounted for in a step of a copy, unless the ids run out. -/
def Retains (a : Allocator) (m : Copying α) : Prop := ∀ e map, Engine.Retains a e (m.asAction map)

theorem retains_pure {v : α} : Retains a (pure v : Copying α) := fun _ _ => Engine.retains_pure

theorem retains_throw {f : Failure} : Retains a (throw f : Copying α) :=
  fun _ _ => Engine.retains_throw

theorem retains_bind (h : Retains a m) (hk : ∀ v, Retains a (k v)) : Retains a (m >>= k) := by
  intro e map
  rw [asAction_bind]
  exact Engine.retains_bind (h e map) fun p e' _ => hk p.1 e' p.2

theorem retains_get : Retains a (get : Copying CopyState) := fun _ _ => Engine.retains_pure

theorem retains_lift {y : Except Failure α} : Retains a (liftM y : Copying α) := by
  cases y with
  | error f => exact retains_throw
  | ok v => exact retains_pure

theorem retains_forM {l : List α} {f : α → Copying Unit} (hf : ∀ v ∈ l, Retains a (f v)) :
    Retains a (l.forM f) := by
  induction l with
  | nil => exact retains_pure
  | cons v rest ih =>
    exact retains_bind (hf v List.mem_cons_self) fun _ =>
      ih fun w hw => hf w (List.mem_cons_of_mem _ hw)

theorem retains_modify {f : CopyState → CopyState}
    (h : ∀ state : CopyState, Balances a state.engine (f state).engine) :
    Retains a (modify f : Copying Unit) :=
  fun e map hs => Or.inr (h { engine := e, map } hs).1

theorem retains_note {source copy : StatementId} : Retains a (note source copy) :=
  retains_modify fun state => refl_of (Balances a) state.engine

theorem retains_settle {source copy : StatementId} :
    Retains a (settle t exclude source copy) := by
  apply retains_bind retains_note
  intro _
  apply retains_modify
  intro state
  split
  · exact refl_of (Balances a) state.engine
  · split
    case h_1 name st _ hst =>
      split
      · exact refl_of (Balances a) state.engine
      · exact balances_rename hst
    case h_2 => exact refl_of (Balances a) state.engine

theorem retains_new {insert : StatementId → Action Unit} {k : StatementId → Copying β}
    (h : ∀ e id, e.store.allocator.Past id → Engine.Retains a e (insert id))
    (hk : ∀ id, Retains a (k id)) : Retains a (do
      let id ← act Engine.allocate
      act (insert id)
      k id) := by
  intro e map
  rw [asAction_bind, asAction_act, bind_assoc]
  apply Engine.retains_bind retains_allocate
  intro id e' hrun
  rw [pure_bind, asAction_bind, asAction_act, bind_assoc]
  exact Engine.retains_bind (h e' id (used_allocate hrun).2.1) fun _ e'' _ => hk id e'' map

theorem retains_copyShell {into : StatementId} {term : Term} {data : ContextData} :
    Retains a (copyShell t exclude into term data) := by
  apply retains_bind retains_get
  intro state
  refine retains_bind retains_lift fun _ => retains_new (fun _ _ => retains_insertContext) ?_
  intro id
  refine retains_bind (retains_bind retains_get fun _ => retains_pure) fun _ => ?_
  refine retains_bind retains_lift fun _ => ?_
  exact retains_bind (retains_forM fun _ _ => retains_settle) fun _ => retains_pure

theorem retains_copyAll (depth : Nat) (outer : List StatementId) (into : StatementId)
    (sources : List StatementId) : Retains a (copyAll t exclude depth outer into sources) := by
  induction depth generalizing outer into sources with
  | zero => exact retains_pure
  | succ depth ih =>
    apply retains_forM
    intro source _
    apply retains_bind retains_get
    intro state
    dsimp only
    split
    · exact retains_note
    · apply retains_bind retains_lift
      intro st
      split
      · exact retains_throw
      · exact retains_new (fun _ _ hid => retains_of_balances (balances_insertDeclaration hid))
          fun _ => retains_settle
      · exact retains_new (fun _ _ hid => retains_of_balances (balances_insertSpecialization hid))
          fun _ => retains_settle
      · split
        · exact retains_throw
        · refine retains_bind retains_copyShell fun _ => ?_
          refine retains_bind (retains_bind retains_get fun _ => retains_pure) fun _ => ?_
          exact retains_bind retains_lift fun _ => retains_bind retains_settle fun _ => ih _ _ _

theorem retains_copyList {target : StatementId} {sources : List StatementId} :
    Retains a (copyList t target sources exclude) := by
  have hopen : Retains a (act (Engine.ensureOpen t)) := by
    intro e map
    rw [asAction_act]
    exact Engine.retains_bind (retains_of_balances within_ensureOpen) fun _ _ _ =>
      Engine.retains_pure
  refine retains_bind hopen fun _ => ?_
  refine retains_bind (retains_bind retains_get fun _ => retains_pure) fun _ => ?_
  refine retains_bind retains_lift fun _ => retains_bind (retains_copyAll _ _ _ _) fun _ => ?_
  exact retains_bind retains_get fun _ => retains_lift

end Copying

/-! ### Runs -/

theorem Transaction.accounted_before {tx : Transaction} {s s' : Store} {a : Allocator}
    (h : (tx.before s).graph.Accounted a) (hs : s'.graph.Accounted a) :
    (tx.before s').graph.Accounted a := by
  intro x c hx
  have hold := h x c
  rw [Records.graph, before] at hx hold
  dsimp only at hx hold
  cases hkept : tx.statements.get? x with
  | none =>
    rw [hkept] at hx
    exact hs x c hx
  | some kept =>
    rw [hkept] at hx hold
    exact hold hx

namespace Engine

open Store

variable {t : TransactionId} {a : Allocator} {e e' : Engine} {x : StatementId} {α : Type} {op : Op}

theorem Tallies.effect {m : Action α} (h : Tallies a e) (hm : Retains a e m)
    (hlast : (m.effect e).1 ≠ .error exhausted) : Tallies a (m.effect e).2 := by
  rw [Action.effect] at hlast ⊢
  refine (hm h).resolve_left fun hfail => hlast ?_
  rw [hfail]
  rfl

theorem Tallies.copy {target : StatementId} {sources : List StatementId} {map : Correspondence}
    {exclude : IdSet} (h : Tallies a e)
    (hlast : (e.copy t target sources map exclude).1 ≠ .error exhausted) :
    Tallies a (e.copy t target sources map exclude).2.2 := by
  have hretains : Copying.Retains a (Copying.copyList t target sources exclude) :=
    Copying.retains_copyList
  have hcopied := hretains e map h
  rw [Copying.perform_asAction] at hcopied
  rw [Engine.copy] at hlast ⊢
  cases hrun : (Copying.copyList t target sources exclude).run { engine := e, map } with
  | mk r state =>
    rw [hrun] at hcopied hlast
    cases r with
    | ok copies => exact hcopied.resolve_left fun hfail => by cases hfail
    | error f =>
      refine hcopied.resolve_left fun hfail => hlast ?_
      cases hfail
      rfl

/-- What is done in a transaction leaves accounted for what is used up. -/
theorem Tallies.run (h : Tallies a e) (hnext : e.store.allocator.next ≠ 0)
    (hclient : op.client? = some t) (hlast : (op.run e).1 ≠ .error exhausted) :
    Tallies a (op.run e).2 := by
  cases op with
  | createRoot => exact h.effect retains_createRoot hlast
  | declare => exact h.effect retains_declare hlast
  | specialize => exact h.effect retains_specialize hlast
  | openNested => exact h.effect retains_openContext hlast
  | openUnfolding => exact h.effect retains_openContext hlast
  | copy =>
    refine h.copy fun hfail => hlast ?_
    rw [Op.run, hfail]
    rfl
  | undelete => exact (restocks_undelete ⟨hnext, h⟩).2
  | removeStatements => exact (balances_removeStatements h).1
  | removeRoot => exact (balances_removeRoot h).1
  | removeCascade => exact (balances_removeCascade h).1
  | rebuild => exact (balances_rebuild h).1
  | propagate => exact (within_propagate (R := Balances a) balances_propagation h).1
  | identify => exact (balances_identify h).1
  | unidentify => exact (balances_unidentify h).1
  | createAuthority => exact (balances_createAuthority h).1
  | signAuthority => exact (balances_signAuthority h).1
  | deleteAuthority => exact (balances_deleteAuthority h).1
  | lock => exact (balances_lock h).1
  | addHook u always label =>
    have hbalances : Balances a e (e.addHook u always label) :=
      balances_of_store store_onTransaction
    exact (hbalances h).1
  | _ => cases hclient

/-- What is used up is accounted for, also in what aborts would put back. -/
structure Audited (e : Engine) : Prop where
  orderly : e.Orderly
  left : e.store.allocator.next ≠ 0
  accounted : e.store.graph.Accounted e.store.allocator
  journals : ∀ t tx, e.transactions.get? t = some tx →
    (tx.before e.store).graph.Accounted e.store.allocator

theorem audited_create {config : Config} (h : create config .absent = .ok e) : e.Audited := by
  obtain ⟨hstore, -, -, htransactions⟩ := create_fields h
  refine ⟨orderly_create h, ?_, fun x c hx => ?_, fun t tx htx => ?_⟩
  · rw [hstore]
    decide
  · rw [hstore] at hx
    cases hx
  · rw [htransactions] at htx
    cases htx

theorem Audited.get?_eq_none (h : e.Audited) (hnew : allocate.perform e = (.ok x, e')) :
    e.store.get? x = none := by
  refine Option.eq_none_iff_forall_ne_some.2 fun st hst => ?_
  exact ((used_allocate hnew).2.2 x (h.accounted x st.content (graph_of_get? hst)).id).2 rfl

theorem Audited.sub_enter {st : Statement} (h : e.Audited)
    (hnew : allocate.perform e = (.ok st.id, e')) :
    e.store.graph.Sub (e'.enter t st).engine.store.graph := by
  rw [graph_enter, graph_allocate hnew]
  refine .set_new ?_
  rw [graph, h.get?_eq_none hnew]
  rfl

theorem Audited.tallies (h : e.Audited) : Tallies e.store.allocator e :=
  ⟨h.orderly.filed.indexed, fun _ hx => hx, h.accounted⟩

/-- What the transactions would put back after changes in one of them. -/
theorem Audited.proceeded (h : e.Audited) (hp : Proceeds t e e')
    (ht : Tallies e.store.allocator e') {t' : TransactionId} {tx' : Transaction}
    (htx' : e'.transactions.get? t' = some tx') :
    (tx'.before e'.store).graph.Accounted e'.store.allocator := by
  by_cases hown : t' = t
  · subst hown
    cases htx : e.transactions.get? t' with
    | none => cases htx'.symm.trans (hp.unknown htx)
    | some tx =>
      obtain ⟨tx₁, htx₁, hadvances⟩ := hp.own tx htx
      cases htx'.symm.trans htx₁
      rw [hadvances.before]
      exact (h.journals t' tx htx).mono (.refl _) ht.used
  · rw [hp.others t' hown] at htx'
    exact Transaction.accounted_before ((h.journals t' tx' htx').mono (.refl _) ht.used)
      ht.accounted

theorem Audited.closed (h : e.Audited) (ho : e'.Orderly)
    (hcounter : e'.store.allocator = e.store.allocator)
    (hs : e'.store.graph.Accounted e.store.allocator)
    (htransactions : e'.transactions = (e.onTransaction t Transaction.emptied).transactions) :
    e'.Audited := by
  refine ⟨ho, hcounter ▸ h.left, hcounter ▸ hs, fun t' tx' htx' => ?_⟩
  rw [htransactions, get?_onTransaction] at htx'
  rw [hcounter]
  split at htx'
  · obtain ⟨tx, -, rfl⟩ := Option.map_eq_some_iff.1 htx'
    exact hs
  · exact Transaction.accounted_before (h.journals t' tx' htx') hs

theorem Audited.committed {tx : Transaction} (h : e.Audited)
    (htx : e.transactions.get? t = some tx) : (e.commitWith tx).Audited := by
  obtain ⟨hstore, -, htransactions, -⟩ := commitWith_fields e tx
  refine h.closed (h.orderly.committed htx) ?_ ?_ htransactions <;> rw [hstore]
  exact h.accounted

theorem Audited.aborted {tx : Transaction} (h : e.Audited)
    (htx : e.transactions.get? t = some tx) : (e.abortWith tx).Audited := by
  obtain ⟨hstore, -, htransactions, -⟩ := abortWith_fields e tx
  have hrecords : (e.rollback tx).store.records = tx.before e.store :=
    records_rollbackIn (.refl _) (.refl _) (h.orderly.journal t tx htx).statements
  refine h.closed (h.orderly.aborted htx) ?_ ?_ htransactions <;> rw [hstore]
  · exact allocator_rollbackIn
  · change (e.rollback tx).store.records.graph.Accounted _
    rw [hrecords]
    exact h.journals t tx htx

/-- Every operation leaves accounted for what is used up. -/
theorem Audited.run (h : e.Audited) (hlasting : op.Lasting e) : (op.run e).2.Audited := by
  have ho := h.orderly.run op
  cases hclient : op.client? with
  | some t =>
    have ht := h.tallies.run h.left hclient hlasting.1
    refine ⟨ho, hlasting.2, ht.accounted, fun t' tx' htx' => ?_⟩
    rcases Op.worked h.orderly hclient with hchanges | @⟨batch, rest, e₁, hbatches, hchanges, he⟩
    · exact h.proceeded hchanges.proceeds ht htx'
    · have hstore : (op.run e).2.store = e₁.store := by
        rw [he]
        exact store_onTransaction
      have hfewer : Audited { e with undo := { e.undo with batches := rest } } :=
        ⟨h.orderly.fewer (hbatches ▸ List.sublist_cons_self batch rest), h.left, h.accounted,
          h.journals⟩
      rw [hstore]
      have ht₁ : Tallies e.store.allocator e₁ := by
        have hsame : Balances e.store.allocator (op.run e).2 e₁ := balances_of_store hstore.symm
        exact (hsame ht).1
      rw [he, get?_onTransaction] at htx'
      split at htx'
      · obtain ⟨tx₁, htx₁, rfl⟩ := Option.map_eq_some_iff.1 htx'
        have hbefore := hfewer.proceeded hchanges.proceeds ht₁ htx₁
        exact hbefore
      · exact hfewer.proceeded hchanges.proceeds ht₁ htx'
  | none =>
    cases op with
    | begin timeout =>
      refine ⟨ho, h.left, h.accounted, fun t tx htx => ?_⟩
      have htx := get?_begin.symm.trans htx
      split at htx
      · cases htx
        exact h.accounted
      · exact h.journals t tx htx
    | commit t =>
      rw [Op.run]
      rcases commit_cases e t with ⟨-, hrun⟩ | ⟨tx, htx, -, hrun⟩ <;> rw [hrun]
      · exact h
      · exact h.committed htx
    | abort t =>
      rw [Op.run]
      rcases abort_cases e t with ⟨-, hrun⟩ | ⟨tx, htx, -, hrun⟩ <;> rw [hrun]
      · exact h
      · exact h.aborted htx
    | listen | unlisten | takeNotices | close =>
      exact ⟨ho, h.left, h.accounted, h.journals⟩
    | popUndo =>
      rw [Op.run, Engine.popUndo] at ho ⊢
      split at ho <;> exact ⟨ho, h.left, h.accounted, h.journals⟩
    | _ => cases hclient

end Engine

theorem Reached.audited {permits : Engine → Op → Prop} {e : Engine} (h : Reached permits e) :
    e.Audited := by
  induction h with
  | start h => exact Engine.audited_create h
  | step _ _ hlasting ih => exact ih.run hlasting

end StatementGraph
