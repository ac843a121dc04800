import StatementGraph.Proofs.Acting

namespace StatementGraph

namespace Engine

open Store

variable {t t' : TransactionId} {e e' e'' : Engine} {x : StatementId} {tx : Transaction}

theorem owner?_release {l : LockTable} {ids : IdSet} (x : StatementId) :
    (l.release t ids).owner? x =
      if x ∈ ids ∧ l.owner? x = some t then none else l.owner? x := by
  have hfold (ids : List StatementId) (l : LockTable) :
      (ids.foldl (LockTable.releaseOne t) l).owner? x =
        if x ∈ ids ∧ l.owner? x = some t then none else l.owner? x := by
    induction ids generalizing l with
    | nil => simp
    | cons id rest ih =>
      have hone : (LockTable.releaseOne t l id).owner? x =
          if x = id ∧ l.owner? x = some t then none else l.owner? x := by
        rw [LockTable.releaseOne]
        split
        case isTrue hheld =>
          refine (Table.get?_erase (t := l.owners)).trans ?_
          by_cases hx : x = id
          · rw [if_pos hx, if_pos ⟨hx, hx ▸ hheld⟩]
          · rw [if_neg hx, if_neg fun h => hx h.1]
            rfl
        case isFalse hfree =>
          rw [if_neg]
          rintro ⟨rfl, hheld⟩
          exact hfree hheld
      rw [List.foldl_cons, ih, hone]
      grind
  exact hfold ids.toList l

theorem locks_finish (e : Engine) (tx : Transaction) (committed : Bool) :
    (e.finish tx committed).locks = e.locks.release tx.id tx.held := by
  have hhooks (hooks : List Hook) (e : Engine) :
      (hooks.foldl (runHook committed) e).locks = e.locks := by
    induction hooks generalizing e with
    | nil => rfl
    | cons hook rest ih =>
      rw [List.foldl_cons, ih, runHook]
      split
      · split <;> rfl
      · rfl
  exact hhooks tx.hooks _

end Engine

theorem UndoLog.mem_pushAll {log : UndoLog} {l : List DeletionBatch} {batch : DeletionBatch}
    (h : batch ∈ (log.pushAll l).batches) : batch ∈ log.batches ∨ batch ∈ l := by
  induction l generalizing log with
  | nil => exact Or.inl h
  | cons first rest ih =>
    rcases ih h with hlog | hrest
    · rcases List.mem_cons.1 (List.mem_of_mem_take hlog) with rfl | hold
      · exact Or.inr List.mem_cons_self
      · exact Or.inl hold
    · exact Or.inr (List.mem_cons_of_mem _ hrest)

theorem UndoLog.length_pushAll (log : UndoLog) (l : List DeletionBatch)
    (h : log.batches.length ≤ log.depth) : (log.pushAll l).batches.length ≤ log.depth := by
  induction l generalizing log with
  | nil => exact h
  | cons batch rest ih => exact ih (log.push batch) (List.length_take_le _ _)

namespace Engine

open Store

variable {t t' : TransactionId} {e e' e'' : Engine} {x : StatementId} {tx : Transaction}

theorem keyed_of_empty {tx : Transaction} (hs : tx.statements = .empty)
    (ha : tx.authorities = .empty) (hd : tx.deletions = []) (hp : tx.popped = []) : tx.Keyed := by
  refine ⟨?_, ?_, ?_, ?_, ?_⟩
  · rw [hs]
    nofun
  · rw [hs]
    nofun
  · rw [ha]
    nofun
  · rw [hd]
    nofun
  · rw [hp]
    nofun

/-- Closing a transaction is in order if the store is. -/
theorem Orderly.close {held : IdSet} (h : e.Orderly) (hfiled : e'.store.Filed)
    (hapart : ∀ x st, e'.store.get? x = some st → st.Apart)
    (hauthority : ∀ x a, e'.store.authority? x = some a → a.statement = x)
    (hnext : e'.nextTransaction = e.nextTransaction)
    (htransactions : e'.transactions = (e.onTransaction t Transaction.emptied).transactions)
    (hlocks : e'.locks = e.locks.release t held) {l : List DeletionBatch}
    (hundo : e'.undo = e.undo.pushAll l) (hl : ∀ batch ∈ l, ∀ d ∈ batch, d.statement.Apart) :
    e'.Orderly := by
  refine ⟨hfiled, hapart, hauthority, fun t' tx' htx' => ?_, fun t' tx' htx' => ?_,
    fun x t' hx => ?_, ?_, ?_, fun batch hbatch => ?_⟩
  · rw [hnext]
    exact keyed_emptied h.keyed (htransactions ▸ htx')
  · rw [htransactions, get?_onTransaction] at htx'
    split at htx'
    case isTrue =>
      obtain ⟨tx₀, htx₀, rfl⟩ := Option.map_eq_some_iff.1 htx'
      exact keyed_of_empty rfl rfl rfl rfl
    case isFalse => exact h.journal t' tx' htx'
  · rw [hlocks, owner?_release] at hx
    rw [hnext]
    split at hx
    · cases hx
    · exact h.owners x t' hx
  · rw [hundo, UndoLog.depth_pushAll]
    exact h.deep
  · rw [hundo, UndoLog.depth_pushAll]
    exact e.undo.length_pushAll l h.log
  · rw [hundo] at hbatch
    rcases UndoLog.mem_pushAll hbatch with hold | hnew
    · exact h.batches batch hold
    · exact hl batch hnew

theorem authority?_rollback (hkeyed : tx.Keyed)
    (hauthority : ∀ x a, e.store.authority? x = some a → a.statement = x) {a : Authority}
    (ha : (e.rollback tx).store.authority? x = some a) : a.statement = x := by
  have hrecords : (e.rollback tx).store.records = tx.before e.store :=
    records_rollbackIn (.refl _) (.refl _) hkeyed.statements
  have hx : (tx.before e.store).authorities x = some a :=
    (congrFun (congrArg Records.authorities hrecords) x).symm.trans ha
  rw [Transaction.before] at hx
  dsimp only at hx
  cases hkept : tx.authorities.get? x with
  | none =>
    rw [hkept] at hx
    exact hauthority x a hx
  | some kept =>
    rw [hkept] at hx
    exact hkeyed.authorities x a (hkept.trans (congrArg some hx))

theorem apart_rollback (hkeyed : tx.Keyed) (hapart : ∀ x st, e.store.get? x = some st → st.Apart)
    {st : Statement} (hst : (e.rollback tx).store.get? x = some st) : st.Apart := by
  have hrecords : (e.rollback tx).store.records = tx.before e.store :=
    records_rollbackIn (.refl _) (.refl _) hkeyed.statements
  have hx : (tx.before e.store).statements x = some st :=
    (congrFun (congrArg Records.statements hrecords) x).symm.trans hst
  rw [Transaction.before] at hx
  dsimp only at hx
  cases hkept : tx.statements.get? x with
  | none =>
    rw [hkept] at hx
    exact hapart x st hx
  | some kept =>
    rw [hkept] at hx
    exact hkeyed.apart x st (hkept.trans (congrArg some hx))

theorem filed_rollbackIn {statements : List (StatementId × Option Statement)}
    {authorities : List (StatementId × Option Authority)} (h : e.store.Filed) :
    (e.rollbackIn tx statements authorities).store.Filed :=
  rollbackIn_keeps (fun _ _ h => h.write) (fun _ _ h => h.erase)
    (fun _ _ hs hi h => h.of_eq hs hi) h

theorem locks_commitWith : (e.commitWith tx).locks = e.locks.release tx.id tx.held := by
  rw [commitWith, locks_finish]
  exact congrArg (·.release tx.id tx.held) locks_onTransaction

theorem locks_abortWith : (e.abortWith tx).locks = e.locks.release tx.id tx.held := by
  rw [abortWith, locks_finish]
  exact congrArg (·.release tx.id tx.held) locks_onTransaction

theorem Orderly.committed (h : e.Orderly) (htx : e.transactions.get? t = some tx) :
    (e.commitWith tx).Orderly := by
  obtain ⟨hstore, hundo, htransactions, hnext⟩ := commitWith_fields e tx
  have hlocks : (e.commitWith tx).locks = e.locks.release tx.id tx.held := locks_commitWith
  have hid := (h.keyed t tx htx).1
  rw [hid] at htransactions hlocks
  exact h.close (hstore ▸ h.filed) (hstore ▸ h.apart) (hstore ▸ h.authority) hnext htransactions
    hlocks hundo (h.journal t tx htx).deletions

theorem Orderly.aborted (h : e.Orderly) (htx : e.transactions.get? t = some tx) :
    (e.abortWith tx).Orderly := by
  obtain ⟨hstore, hundo, htransactions, hnext⟩ := abortWith_fields e tx
  have hlocks : (e.abortWith tx).locks = e.locks.release tx.id tx.held := locks_abortWith
  have hid := (h.keyed t tx htx).1
  rw [hid] at htransactions hlocks
  have hkeyed := h.journal t tx htx
  refine h.close (hstore ▸ filed_rollbackIn h.filed) (fun x st hx => ?_) (fun x a hx => ?_) hnext
    htransactions hlocks hundo fun batch hbatch => hkeyed.popped batch (List.mem_reverse.1 hbatch)
  · rw [hstore] at hx
    exact apart_rollback hkeyed h.apart hx
  · rw [hstore] at hx
    exact authority?_rollback hkeyed h.authority hx

theorem Orderly.begun (h : e.Orderly) (timeout : Option Nat) : (e.begin timeout).2.Orderly := by
  refine ⟨h.filed, h.apart, h.authority, fun _ _ => keyed_begin h.keyed, fun t tx htx => ?_,
    fun x t hx => ?_, h.deep, h.log, h.batches⟩
  · rw [get?_begin] at htx
    split at htx
    case isTrue =>
      cases htx
      exact keyed_of_empty rfl rfl rfl rfl
    case isFalse => exact h.journal t tx htx
  · exact Nat.lt_succ_of_lt (h.owners x t hx)

/-- Every operation keeps what holds in every run. -/
theorem Orderly.run (h : e.Orderly) (op : Op) : (op.run e).2.Orderly := by
  cases hclient : op.client? with
  | some t =>
    rcases Op.worked h hclient with hchanges | @⟨batch, rest, e₁, hbatches, hchanges, he⟩
    · exact h.changes hchanges
    · have hfewer := h.fewer (hbatches ▸ List.sublist_cons_self batch rest)
      have hbatch : ∀ d ∈ batch, d.statement.Apart := by
        apply h.batches batch
        rw [hbatches]
        exact List.mem_cons_self
      rw [he]
      apply (hfewer.changes hchanges).note
      intro tx hk
      exact ⟨rfl, hk.addPopped hbatch⟩
  | none =>
    cases op with
    | begin timeout => exact h.begun timeout
    | commit t =>
      rw [Op.run]
      rcases commit_cases e t with ⟨-, hrun⟩ | ⟨tx, htx, -, hrun⟩ <;> rw [hrun]
      · exact h
      · exact h.committed htx
    | abort t =>
      rw [Op.run]
      rcases abort_cases e t with ⟨-, hrun⟩ | ⟨tx, htx, -, hrun⟩ <;> rw [hrun]
      · exact h
      · exact h.aborted htx
    | listen | unlisten | takeNotices => exact { h with }
    | popUndo =>
      rw [Op.run, Engine.popUndo, UndoLog.pop?]
      cases hbatches : e.undo.batches with
      | nil => exact h
      | cons batch rest => exact h.fewer (hbatches ▸ List.sublist_cons_self batch rest)
    | close => exact { h.fewer (List.nil_sublist _) with }
    | _ => cases hclient

theorem locks_create {config : Config} (h : create config .absent = .ok e) : e.locks = {} := by
  rw [create, bind_eq_ok] at h
  obtain ⟨-, -, h⟩ := h
  split at h
  · cases h
    rfl
  · cases h
    rfl

theorem orderly_create {config : Config} (h : create config .absent = .ok e) : e.Orderly := by
  obtain ⟨hstore, hundo, hdepth, htransactions⟩ := create_fields h
  have hlocks := locks_create h
  refine ⟨hstore ▸ filed_empty, fun x st hx => ?_, fun x a hx => ?_, fun t tx htx => ?_,
    fun t tx htx => ?_, fun x t hx => ?_, hdepth, ?_, fun batch hbatch => ?_⟩
  · rw [hstore] at hx
    cases hx
  · rw [hstore] at hx
    cases hx
  · rw [htransactions] at htx
    cases htx
  · rw [htransactions] at htx
    cases htx
  · rw [hlocks] at hx
    cases hx
  · rw [hundo]
    exact Nat.zero_le _
  · rw [hundo] at hbatch
    cases hbatch

end Engine

theorem Engine.Orderly.runAll {e : Engine} (h : e.Orderly) (ops : List Op) :
    (Op.runAll e ops).Orderly := by
  induction ops generalizing e with
  | nil => exact h
  | cons op rest ih => exact ih (h.run op)

end StatementGraph
