import StatementGraph.Proofs.Deletion
import StatementGraph.Proofs.Restoring
import StatementGraph.Proofs.Rollback

namespace StatementGraph

theorem UndoLog.subperm_pushAll (log : UndoLog) (l : List DeletionBatch) :
    (log.pushAll l).batches.Subperm (log.batches ++ l) := by
  induction l generalizing log with
  | nil => exact (List.append_nil log.batches).symm ▸ .refl _
  | cons batch rest ih =>
    have hpush : (log.push batch).batches.Subperm (batch :: log.batches) :=
      (List.take_sublist _ _).subperm
    refine (ih (log.push batch)).trans ?_
    refine ((List.subperm_append_right rest).2 hpush).trans (List.Perm.subperm ?_)
    exact List.perm_middle.symm

theorem UndoLog.depth_pushAll (log : UndoLog) (l : List DeletionBatch) :
    (log.pushAll l).depth = log.depth := by
  induction l generalizing log with
  | nil => rfl
  | cons batch rest ih => exact ih (log.push batch)

namespace Engine

open Store

/-- A transaction can be taken back or go through. -/
structure Reversible (H : Graph) (e : Engine) (tx : Transaction) : Prop where
  before : (tx.before e.store).Maintained H
  names : (tx.before e.store).DistinctNames
  popped : H.Buries (tx.before e.store).graph (e.undo.batches ++ tx.popped)
  deletions : H.Buries e.store.graph (e.undo.batches ++ tx.deletions)

/-- What holds of an engine and the history of its session between operations. -/
structure Session (D : Discipline) (H : Graph) (e : Engine) : Prop where
  lawful : H.Lawful D
  maintained : e.store.Maintained H
  named : e.store.Named
  counter : e.store.allocator.Beyond H
  deep : e.undo.depth ≠ 0
  keyed : ∀ t tx, e.transactions.get? t = some tx → tx.id = t ∧ t.raw < e.nextTransaction
  alone : ∀ t t', e.isOpen t = true → e.isOpen t' = true → t = t'
  idle : (∀ t, e.isOpen t = false) → H.Buries e.store.graph e.undo.batches
  busy : ∀ t tx, e.transactions.get? t = some tx → tx.closed = false → Reversible H e tx

variable {D : Discipline} {H H' : Graph} {e e' : Engine} {t : TransactionId} {tx : Transaction}
  {batch : DeletionBatch}

theorem isOpen_iff :
    e.isOpen t = true ↔ ∃ tx, e.transactions.get? t = some tx ∧ tx.closed = false := by
  rw [isOpen, Option.any_eq_true]
  simp

theorem Session.sound (h : Session D H e) (ht : e.isOpen t = true) : Sound D t H e :=
  ⟨h.lawful, h.maintained, h.counter, ht⟩

/-- A change of the open transaction, which stays the only one. -/
theorem Session.of_evolves (h : Session D H e) (ht : e.isOpen t = true) (hH : H'.Lawful D)
    (hm : e'.store.Maintained H') (hn : e'.store.Named)
    (hcounter : e'.store.allocator.Beyond H') (hdepth : e'.undo.depth = e.undo.depth)
    (hnext : e'.nextTransaction = e.nextTransaction)
    (hothers : ∀ t', t' ≠ t → e'.transactions.get? t' = e.transactions.get? t')
    (hown : ∀ tx, e.transactions.get? t = some tx → tx.closed = false →
      ∃ tx', e'.transactions.get? t = some tx' ∧ tx'.id = tx.id ∧ tx'.closed = false ∧
        Reversible H' e' tx') : Session D H' e' := by
  obtain ⟨tx, htx, hopen⟩ := isOpen_iff.1 ht
  obtain ⟨tx', htx', hid, hopen', hrev⟩ := hown tx htx hopen
  have hsame (t' : TransactionId) (ht' : e'.isOpen t' = true) : t' = t := by
    by_contra hne
    refine hne (h.alone t' t ?_ ht)
    rwa [isOpen, hothers t' hne] at ht'
  refine ⟨hH, hm, hn, hcounter, hdepth ▸ h.deep, fun t' tx₁ htx₁ => ?_, fun t₁ t₂ h₁ h₂ => ?_,
    fun hidle => ?_, fun t' tx₁ htx₁ hopen₁ => ?_⟩
  · rw [hnext]
    by_cases hne : t' = t
    · subst hne
      cases htx'.symm.trans htx₁
      exact ⟨hid.trans (h.keyed t' tx htx).1, (h.keyed t' tx htx).2⟩
    · exact h.keyed t' tx₁ (hothers t' hne ▸ htx₁)
  · exact (hsame t₁ h₁).trans (hsame t₂ h₂).symm
  · have hopen := isOpen_iff.2 ⟨tx', htx', hopen'⟩
    rw [hidle t] at hopen
    cases hopen
  · have hne := hsame t' (isOpen_iff.2 ⟨tx₁, htx₁, hopen₁⟩)
    subst hne
    cases htx'.symm.trans htx₁
    exact hrev

theorem Session.grown (h : Session D H e) (ht : e.isOpen t = true) (hs : Sound D t H' e')
    (hg : Grown t H e H' e') : Session D H' e' := by
  refine h.of_evolves ht hs.lawful hs.maintained (hg.evolves.named h.named) hs.counter
    (congrArg UndoLog.depth hg.evolves.undo) hg.evolves.nextTransaction hg.evolves.others
    fun tx htx hopen => ?_
  obtain ⟨tx', htx', hc⟩ := hg.evolves.own tx htx
  have hrev := h.busy t tx htx hopen
  refine ⟨tx', htx', hc.id, hc.closed.trans hopen, ⟨?_, hc.before ▸ hrev.names, ?_, ?_⟩⟩
  · rw [hc.before]
    exact hrev.before.mono hg.history
  · rw [hc.before, hc.popped, hg.evolves.undo]
    exact hrev.popped.history hg.history
  · rw [hc.deletions, hg.evolves.undo]
    exact (hrev.deletions.live h.lawful hg.new).history hg.history

theorem get?_onTransaction {f : Transaction → Transaction} {t' : TransactionId} :
    (e.onTransaction t f).transactions.get? t' =
      if t' = t then (e.transactions.get? t).map f else e.transactions.get? t' := by
  rw [onTransaction]
  cases htx : e.transactions.get? t with
  | none =>
    dsimp only
    split
    case isTrue heq => rw [heq, htx]; rfl
    case isFalse => rfl
  | some tx => exact Table.get?_insert

theorem onTransaction_fields {f : Transaction → Transaction} :
    (e.onTransaction t f).undo = e.undo ∧
      (e.onTransaction t f).nextTransaction = e.nextTransaction := by
  rw [onTransaction]
  split <;> exact ⟨rfl, rfl⟩

theorem get?_begin {timeout : Option Nat} {t' : TransactionId} :
    (e.begin timeout).2.transactions.get? t' =
      if t' = ⟨e.nextTransaction⟩ then
        some { id := ⟨e.nextTransaction⟩, timeout := timeout.getD e.config.lockTimeout }
      else e.transactions.get? t' :=
  Table.get?_insert

theorem isOpen_begin (timeout : Option Nat) :
    (e.begin timeout).2.isOpen (e.begin timeout).1 = true :=
  isOpen_iff.2 ⟨_, get?_begin.trans (if_pos rfl), rfl⟩

theorem keyed_begin {timeout : Option Nat}
    (h : ∀ t tx, e.transactions.get? t = some tx → tx.id = t ∧ t.raw < e.nextTransaction)
    (htx : (e.begin timeout).2.transactions.get? t = some tx) :
    tx.id = t ∧ t.raw < (e.begin timeout).2.nextTransaction := by
  rw [get?_begin] at htx
  split at htx
  case isTrue heq =>
    cases htx
    exact ⟨heq.symm, by rw [heq]; exact Nat.lt_succ_self _⟩
  case isFalse =>
    obtain ⟨hid, hlt⟩ := h t tx htx
    exact ⟨hid, Nat.lt_succ_of_lt hlt⟩

theorem open_begin {timeout : Option Nat} (hidle : ∀ t, e.isOpen t = false)
    (htx : (e.begin timeout).2.transactions.get? t = some tx) (hopen : tx.closed = false) :
    t = ⟨e.nextTransaction⟩ ∧
      tx = { id := ⟨e.nextTransaction⟩, timeout := timeout.getD e.config.lockTimeout } := by
  rw [get?_begin] at htx
  split at htx
  case isTrue heq => exact ⟨heq, (Option.some.inj htx).symm⟩
  case isFalse => cases (hidle t).symm.trans (isOpen_iff.2 ⟨tx, htx, hopen⟩)

theorem newest_begin {timeout : Option Nat} (hidle : ∀ t, e.isOpen t = false)
    (ht : (e.begin timeout).2.isOpen t = true) : t = ⟨e.nextTransaction⟩ := by
  obtain ⟨tx, htx, hopen⟩ := isOpen_iff.1 ht
  exact (open_begin hidle htx hopen).1

theorem keyed_emptied {t' : TransactionId}
    (h : ∀ t tx, e.transactions.get? t = some tx → tx.id = t ∧ t.raw < e.nextTransaction)
    (htx : (e.onTransaction t Transaction.emptied).transactions.get? t' = some tx) :
    tx.id = t' ∧ t'.raw < e.nextTransaction := by
  rw [get?_onTransaction] at htx
  split at htx
  case isTrue heq =>
    obtain ⟨tx', htx', rfl⟩ := Option.map_eq_some_iff.1 htx
    rw [heq]
    exact h t tx' htx'
  case isFalse => exact h t' tx htx

theorem isOpen_emptied (halone : ∀ t t', e.isOpen t = true → e.isOpen t' = true → t = t')
    (ht : e.isOpen t = true)
    (htransactions : e'.transactions = (e.onTransaction t Transaction.emptied).transactions)
    (t' : TransactionId) : e'.isOpen t' = false := by
  rw [← Bool.not_eq_true]
  intro hopen
  obtain ⟨tx, htx, hopen⟩ := isOpen_iff.1 hopen
  rw [htransactions, get?_onTransaction] at htx
  split at htx
  case isTrue =>
    obtain ⟨tx', -, rfl⟩ := Option.map_eq_some_iff.1 htx
    cases hopen
  case isFalse hne => exact hne (halone t' t (isOpen_iff.2 ⟨tx, htx, hopen⟩) ht)

/-- A session goes on when a transaction changes the store and then notes something. -/
theorem Session.noted {e₁ : Engine} {f : Transaction → Transaction} (h : Session D H e)
    (ht : e.isOpen t = true) (hm : e₁.store.Maintained H) (hn : e₁.store.Named)
    (hcounter : e₁.store.allocator.Beyond H) (hdepth : e₁.undo.depth = e.undo.depth)
    (hnext : e₁.nextTransaction = e.nextTransaction)
    (hothers : ∀ t', t' ≠ t → e₁.transactions.get? t' = e.transactions.get? t')
    (hown : ∀ tx, e.transactions.get? t = some tx → tx.closed = false →
      ∃ tx₁, e₁.transactions.get? t = some tx₁ ∧ (f tx₁).id = tx.id ∧ (f tx₁).closed = false ∧
        Reversible H e₁ (f tx₁)) : Session D H (e₁.onTransaction t f) := by
  obtain ⟨hundo, hnext'⟩ := onTransaction_fields (e := e₁) (t := t) (f := f)
  have hstore : (e₁.onTransaction t f).store = e₁.store := store_onTransaction
  refine h.of_evolves ht h.lawful (hstore ▸ hm) (hstore ▸ hn) (hstore ▸ hcounter)
    (hundo ▸ hdepth) (hnext'.trans hnext) (fun t' ht' => ?_) fun tx htx hopen => ?_
  · rw [get?_onTransaction, if_neg ht']
    exact hothers t' ht'
  · obtain ⟨tx₁, htx₁, hid, hclosed, hrev⟩ := hown tx htx hopen
    refine ⟨f tx₁, ?_, hid, hclosed, ?_⟩
    · rw [get?_onTransaction, if_pos rfl, htx₁]
      rfl
    · exact ⟨hstore ▸ hrev.before, hstore ▸ hrev.names,
        by rw [hstore, hundo]; exact hrev.popped, by rw [hstore, hundo]; exact hrev.deletions⟩

theorem Session.removed (h : Session D H e) (ht : e.isOpen t = true)
    (hr : Removes t H e e' batch) : Session D H e' := by
  obtain ⟨e₁, he, rfl⟩ := hr.recorded
  obtain ⟨hm, hallocator, hleft, -, -, -, hburied, hdug, -⟩ := hr
  rw [store_onTransaction] at hm hallocator hleft hburied
  refine h.noted ht hm (he.named h.named) (hallocator ▸ h.counter)
    (congrArg UndoLog.depth he.undo) he.nextTransaction he.others fun tx htx hopen => ?_
  obtain ⟨tx₁, htx₁, hc⟩ := he.own tx htx
  have hrev := h.busy t tx htx hopen
  have hsame : Reversible H e₁ tx₁ := by
    refine ⟨hc.before ▸ hrev.before, hc.before ▸ hrev.names, ?_, ?_⟩
    · rw [hc.before, hc.popped, he.undo]
      exact hrev.popped
    · rw [hc.deletions, he.undo]
      exact hrev.deletions.live h.lawful fun x c hx => Or.inl (hleft x c hx)
  refine ⟨tx₁, htx₁, ?_⟩
  rw [Transaction.addDeletions]
  split
  case isTrue => exact ⟨hc.id, hc.closed.trans hopen, hsame⟩
  case isFalse =>
    refine ⟨hc.id, hc.closed.trans hopen, hsame.before, hsame.names, hsame.popped, ?_⟩
    -- what goes now was there until now, so it is in no batch yet
    have hadd := hrev.deletions.add hburied hleft hdug
    rw [List.append_assoc] at hadd
    rw [hc.deletions, he.undo]
    exact hadd

theorem Session.restored {e₁ : Engine} {rest : List DeletionBatch} (h : Session D H e)
    (htx : e.transactions.get? t = some tx) (hopen : tx.closed = false)
    (hundo : e.undo.batches = batch :: rest) (hs : Sound D t H e₁)
    (he : Evolves t { e with undo := { e.undo with batches := rest } } e₁)
    (hburied : H.Buries e₁.store.graph (rest ++ tx.deletions)) :
    Session D H (e₁.onTransaction t (·.addPopped batch)) := by
  refine h.noted (isOpen_iff.2 ⟨tx, htx, hopen⟩) hs.maintained (he.named h.named) hs.counter
    (by rw [he.undo]) he.nextTransaction he.others fun tx' htx' _ => ?_
  cases htx.symm.trans htx'
  obtain ⟨tx₁, htx₁, hc⟩ := he.own tx htx
  have hrev := h.busy t tx htx hopen
  have hbefore : (tx₁.addPopped batch).before e₁.store = tx.before e.store := hc.before
  refine ⟨tx₁, htx₁, hc.id, hc.closed.trans hopen, hbefore ▸ hrev.before, hbefore ▸ hrev.names,
    ?_, ?_⟩
  · -- the batch moves from the undo log to the batches that an abort gives back
    rw [hbefore, he.undo, Transaction.addPopped, hc.popped]
    refine hrev.popped.fewer (List.Perm.subperm ?_)
    rw [hundo, ← List.append_assoc]
    exact List.perm_append_singleton _ _
  · rw [he.undo, Transaction.addPopped, hc.deletions]
    exact hburied

theorem finish_fields (e : Engine) (tx : Transaction) (committed : Bool) :
    (e.finish tx committed).store = e.store ∧ (e.finish tx committed).undo = e.undo ∧
      (e.finish tx committed).transactions = e.transactions ∧
      (e.finish tx committed).nextTransaction = e.nextTransaction := by
  have hhooks (hooks : List Hook) (e : Engine) :
      (hooks.foldl (runHook committed) e).store = e.store ∧
        (hooks.foldl (runHook committed) e).undo = e.undo ∧
        (hooks.foldl (runHook committed) e).transactions = e.transactions ∧
        (hooks.foldl (runHook committed) e).nextTransaction = e.nextTransaction := by
    induction hooks generalizing e with
    | nil => exact ⟨rfl, rfl, rfl, rfl⟩
    | cons hook rest ih =>
      have hone : (runHook committed e hook).store = e.store ∧
          (runHook committed e hook).undo = e.undo ∧
          (runHook committed e hook).transactions = e.transactions ∧
          (runHook committed e hook).nextTransaction = e.nextTransaction := by
        rw [runHook]
        split
        · split <;> exact ⟨rfl, rfl, rfl, rfl⟩
        · exact ⟨rfl, rfl, rfl, rfl⟩
      obtain ⟨hs, hu, ht, hn⟩ := ih (runHook committed e hook)
      exact ⟨hs.trans hone.1, hu.trans hone.2.1, ht.trans hone.2.2.1, hn.trans hone.2.2.2⟩
  exact hhooks tx.hooks { e with locks := e.locks.release tx.id tx.held }

theorem Session.closed (h : Session D H e) (ht : e.isOpen t = true) (hm : e'.store.Maintained H)
    (hn : e'.store.Named) (hcounter : e'.store.allocator.Beyond H)
    (hdepth : e'.undo.depth = e.undo.depth) (hnext : e'.nextTransaction = e.nextTransaction)
    (htransactions : e'.transactions = (e.onTransaction t Transaction.emptied).transactions)
    (hburied : H.Buries e'.store.graph e'.undo.batches) : Session D H e' := by
  have hclosed := isOpen_emptied h.alone ht htransactions
  refine ⟨h.lawful, hm, hn, hcounter, hdepth ▸ h.deep, fun t' tx htx => ?_, fun t' _ h' _ => ?_,
    fun _ => hburied, fun t' tx htx hopen => ?_⟩
  · rw [hnext]
    exact keyed_emptied h.keyed (htransactions ▸ htx)
  · rw [hclosed t'] at h'
    cases h'
  · have hopen := isOpen_iff.2 ⟨tx, htx, hopen⟩
    rw [hclosed t'] at hopen
    cases hopen

theorem commitWith_fields (e : Engine) (tx : Transaction) :
    (e.commitWith tx).store = e.store ∧
      (e.commitWith tx).undo = e.undo.pushAll tx.deletions ∧
      (e.commitWith tx).transactions = (e.onTransaction tx.id Transaction.emptied).transactions ∧
      (e.commitWith tx).nextTransaction = e.nextTransaction := by
  rw [commitWith]
  obtain ⟨hundo, hnext⟩ := onTransaction_fields (e := e) (t := tx.id) (f := Transaction.emptied)
  refine ⟨(finish_fields _ tx true).1.trans store_onTransaction,
    (finish_fields _ tx true).2.1.trans ?_, (finish_fields _ tx true).2.2.1,
    (finish_fields _ tx true).2.2.2.trans hnext⟩
  exact congrArg (·.pushAll tx.deletions) hundo

theorem Session.committed (h : Session D H e) (htx : e.transactions.get? t = some tx)
    (hopen : tx.closed = false) : Session D H (e.commitWith tx) := by
  obtain ⟨hstore, hundo, htransactions, hnext⟩ := commitWith_fields e tx
  rw [(h.keyed t tx htx).1] at htransactions
  refine h.closed (isOpen_iff.2 ⟨tx, htx, hopen⟩) (hstore ▸ h.maintained) (hstore ▸ h.named)
    (hstore ▸ h.counter) (hundo ▸ UndoLog.depth_pushAll _ _) hnext htransactions ?_
  rw [hstore, hundo]
  exact (h.busy t tx htx hopen).deletions.fewer (UndoLog.subperm_pushAll _ _)

theorem abortWith_fields (e : Engine) (tx : Transaction) :
    (e.abortWith tx).store = (e.rollback tx).store ∧
      (e.abortWith tx).undo = e.undo.pushAll tx.popped.reverse ∧
      (e.abortWith tx).transactions = (e.onTransaction tx.id Transaction.emptied).transactions ∧
      (e.abortWith tx).nextTransaction = e.nextTransaction := by
  rw [abortWith]
  obtain ⟨hundo, hnext⟩ := onTransaction_fields (e := e) (t := tx.id) (f := Transaction.emptied)
  obtain ⟨hs, hu, ht, hn⟩ :=
    finish_fields ((e.onTransaction tx.id Transaction.emptied).rollback tx) tx false
  refine ⟨hs.trans ?_, hu.trans ?_, ht, hn.trans hnext⟩
  · rw [rollback, rollback, store_onTransaction]
  · exact congrArg (·.pushAll tx.popped.reverse) hundo

theorem Session.aborted (h : Session D H e) (htx : e.transactions.get? t = some tx)
    (hopen : tx.closed = false) : Session D H (e.abortWith tx) := by
  have hrev := h.busy t tx htx hopen
  obtain ⟨hstore, hundo, htransactions, hnext⟩ := abortWith_fields e tx
  rw [(h.keyed t tx htx).1] at htransactions
  obtain ⟨hrecords, hindexed, hallocator⟩ := records_rollback hrev.before.keyed h.maintained.indexed
  have hgraph : (e.rollback tx).store.graph = (tx.before e.store).graph := by
    rw [← hrecords]
    rfl
  refine h.closed (isOpen_iff.2 ⟨tx, htx, hopen⟩) ?_ ?_ ?_ (hundo ▸ UndoLog.depth_pushAll _ _)
    hnext htransactions ?_ <;> rw [hstore]
  · exact ⟨hindexed, hrecords ▸ hrev.before⟩
  · exact named_rollback hrev.before.keyed hrev.names h.named
  · -- ids that the transaction used are not handed out again
    exact hallocator ▸ h.counter
  · rw [hundo, hgraph]
    refine hrev.popped.fewer ((UndoLog.subperm_pushAll _ _).trans (List.Perm.subperm ?_))
    exact tx.popped.reverse_perm.append_left _

theorem Session.begun (h : Session D H e) (hidle : ∀ t, e.isOpen t = false) (timeout : Option Nat) :
    Session D H (e.begin timeout).2 := by
  have hburied := h.idle hidle
  refine ⟨h.lawful, h.maintained, h.named, h.counter, h.deep, fun _ _ => keyed_begin h.keyed,
    fun t t' ho ho' => ?_, fun _ => hburied, fun t tx htx hopen => ?_⟩
  · exact (newest_begin hidle ho).trans (newest_begin hidle ho').symm
  · obtain ⟨-, rfl⟩ := open_begin hidle htx hopen
    refine ⟨h.maintained.records, h.named.unique, ?_, ?_⟩ <;> rw [List.append_nil] <;>
      exact hburied

/-- What changes neither the store nor a transaction, and takes at most batches off the undo log. -/
theorem Session.aside (h : Session D H e) (hstore : e'.store = e.store)
    (htransactions : ∀ t, e'.transactions.get? t = e.transactions.get? t)
    (hnext : e'.nextTransaction = e.nextTransaction)
    (hdepth : e'.undo.depth = e.undo.depth)
    (hundo : e'.undo.batches.Sublist e.undo.batches) : Session D H e' := by
  have hopen (t : TransactionId) : e'.isOpen t = e.isOpen t := by
    rw [isOpen, htransactions, isOpen]
  refine ⟨h.lawful, hstore ▸ h.maintained, hstore ▸ h.named, hstore ▸ h.counter, hdepth ▸ h.deep,
    fun t tx htx => ?_, fun t t' ho ho' => ?_, fun hidle => ?_, fun t tx htx ho => ?_⟩
  · rw [hnext]
    exact h.keyed t tx (htransactions t ▸ htx)
  · exact h.alone t t' (hopen t ▸ ho) (hopen t' ▸ ho')
  · rw [hstore]
    exact (h.idle fun t => hopen t ▸ hidle t).fewer hundo.subperm
  · have hrev := h.busy t tx (htransactions t ▸ htx) ho
    refine ⟨hstore ▸ hrev.before, hstore ▸ hrev.names, ?_, ?_⟩ <;> rw [hstore]
    · exact hrev.popped.fewer (hundo.append_right _).subperm
    · exact hrev.deletions.fewer (hundo.append_right _).subperm

end Engine

end StatementGraph
