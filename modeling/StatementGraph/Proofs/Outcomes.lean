import StatementGraph.Proofs.Reverting

namespace StatementGraph

namespace Engine

open Store

variable {D : Discipline} {s : TransactionId} {H H' : Graph} {e e₀ e₁ e' : Engine} {op : Op}
  {batch : DeletionBatch} {rest : List DeletionBatch} {α : Type}

/-- What an operation in a transaction comes to. -/
structure Outcome (D : Discipline) (s : TransactionId) (H : Graph) (e : Engine) (H' : Graph)
    (e' : Engine) : Prop where
  history : H.Sub H'
  sound : Sound D s H' e'
  named : e.store.Named → e'.store.Named
  batches : Batches s H e e'

theorem Evolves.batchesIn (h : Evolves s e e') (hopen : e.isOpen s = true) :
    e'.poppedIn s = e.poppedIn s ∧ e'.deletionsIn s = e.deletionsIn s := by
  obtain ⟨tx, htx, -⟩ := isOpen_iff.1 hopen
  obtain ⟨tx', htx', hc⟩ := h.own tx htx
  rw [poppedIn, poppedIn, deletionsIn, deletionsIn, readIn_eq htx, readIn_eq htx, readIn_eq htx',
    readIn_eq htx']
  exact ⟨hc.popped, hc.deletions⟩

theorem batchesIn_onTransaction {f : Transaction → Transaction} (hopen : e.isOpen s = true) :
    ∃ tx, e.poppedIn s = tx.popped ∧ e.deletionsIn s = tx.deletions ∧
      (e.onTransaction s f).poppedIn s = (f tx).popped ∧
      (e.onTransaction s f).deletionsIn s = (f tx).deletions := by
  obtain ⟨tx, htx, -⟩ := isOpen_iff.1 hopen
  have htx' : (e.onTransaction s f).transactions.get? s = some (f tx) := by
    rw [get?_onTransaction, if_pos rfl, htx]
    rfl
  exact ⟨tx, readIn_eq htx, readIn_eq htx, readIn_eq htx', readIn_eq htx'⟩

theorem isOpen_onTransaction {f : Transaction → Transaction}
    (hf : ∀ tx : Transaction, (f tx).closed = tx.closed) (hopen : e.isOpen s = true) :
    (e.onTransaction s f).isOpen s = true := by
  obtain ⟨tx, htx, hclosed⟩ := isOpen_iff.1 hopen
  refine isOpen_iff.2 ⟨f tx, ?_, (hf tx).trans hclosed⟩
  rw [get?_onTransaction, if_pos rfl, htx]
  rfl

theorem outcome_of_grown (hopen : e.isOpen s = true) (hs : Sound D s H' e')
    (hg : Grown s H e H' e') : Outcome D s H e H' e' := by
  obtain ⟨hpopped, hdeletions⟩ := hg.evolves.batchesIn hopen
  exact ⟨hg.history, hs, hg.evolves.named,
    .kept (congrArg UndoLog.batches hg.evolves.undo) hpopped hdeletions hg.new⟩

/-- Statements that are removed go into a batch of the transaction. -/
theorem outcome_of_removes (hopen : e.isOpen s = true) (hs : Sound D s H e₀)
    (hg : Grown s H e H e₀) (hstore : e₀.store = e.store) (hr : Removes s H e₀ e' batch) :
    Outcome D s H e H e' := by
  obtain ⟨e₁, he, rfl⟩ := hr.recorded
  have hevolves : Evolves s e e₁ := hg.evolves.trans he
  have hopen₁ := hevolves.isOpen hopen
  have hclosed (tx : Transaction) : (tx.addDeletions batch).closed = tx.closed := by
    rw [Transaction.addDeletions]
    split <;> rfl
  have hundo : (e₁.onTransaction s (·.addDeletions batch)).undo.batches = e.undo.batches := by
    rw [onTransaction_fields.1, hevolves.undo]
  have hleft : (e₁.onTransaction s (·.addDeletions batch)).store.graph.Sub e.store.graph := by
    rw [← hstore]
    exact hr.left
  obtain ⟨hpopped, hdeletions⟩ := hevolves.batchesIn hopen
  obtain ⟨tx, htx, htx', hpopped', hdeletions'⟩ :=
    batchesIn_onTransaction (f := (·.addDeletions batch)) hopen₁
  refine ⟨.refl H, ⟨hs.lawful, hr.maintained, ?_, isOpen_onTransaction hclosed hopen₁⟩,
    fun hn => ?_, ?_⟩
  · rw [hr.allocator]
    exact hs.counter
  · rw [store_onTransaction]
    exact hevolves.named hn
  · rw [Transaction.addDeletions] at hpopped' hdeletions'
    by_cases hempty : batch.isEmpty = true
    · rw [if_pos hempty] at hpopped' hdeletions'
      exact .kept hundo (hpopped'.trans (htx.symm.trans hpopped))
        (hdeletions'.trans (htx'.symm.trans hdeletions)) fun x c hx => Or.inl (hleft x c hx)
    · rw [if_neg hempty] at hpopped' hdeletions'
      refine .removed hundo (hpopped'.trans (htx.symm.trans hpopped)) ?_ hleft hr.buried ?_
      · rw [hdeletions', ← htx', hdeletions]
      · rw [← hstore]
        exact hr.dug

/-- Statements that are restored come out of a batch of the undo log. -/
theorem outcome_of_restored (hopen : e.isOpen s = true) (hundo : e.undo.batches = batch :: rest)
    (hr : Restored D s H (batch.flatMap Deleted.ids)
      { e with undo := { e.undo with batches := rest } } e₁) :
    Outcome D s H e H (e₁.onTransaction s (·.addPopped batch)) := by
  have hopen₁ := hr.evolves.isOpen hopen
  have hstore : (e₁.onTransaction s (·.addPopped batch)).store = e₁.store := store_onTransaction
  have hopen' : (e₁.onTransaction s (·.addPopped batch)).isOpen s = true :=
    isOpen_onTransaction (fun _ => rfl) hopen₁
  obtain ⟨hpopped, hdeletions⟩ := hr.evolves.batchesIn hopen
  obtain ⟨tx, htx, htx', hpopped', hdeletions'⟩ :=
    batchesIn_onTransaction (f := (·.addPopped batch)) hopen₁
  refine ⟨.refl H, ⟨hr.sound.lawful, hstore ▸ hr.sound.maintained, hstore ▸ hr.sound.counter,
    hopen'⟩, fun hn => hstore ▸ hr.evolves.named hn, @Batches.restored _ _ _ _ batch ?_ ?_ ?_ ?_⟩
  · rw [onTransaction_fields.1, hr.evolves.undo]
    exact hundo
  · rw [hpopped', Transaction.addPopped, ← htx, hpopped]
    rfl
  · rw [hdeletions', Transaction.addPopped, ← htx', hdeletions]
    rfl
  · rw [hstore]
    exact hr.back

/-- An action in an open transaction that comes to one of these, unless the ids run out. -/
def Yields (D : Discipline) (s : TransactionId) (H : Graph) (e : Engine) (m : Action α) : Prop :=
  (m.effect e).1 ≠ .error exhausted → ∃ H', Outcome D s H e H' (m.effect e).2

theorem yields_of_cases {m : Action α} (hopen : e.isOpen s = true)
    (hok : ∀ a e', m.perform e = (.ok a, e') → ∃ H', Outcome D s H e H' e')
    (herror : ∀ f e', m.perform e = (.error f, e') →
      f = exhausted ∨ ∃ H', Sound D s H' e' ∧ Grown s H e H' e') : Yields D s H e m := by
  intro hlast
  rw [Action.effect] at hlast ⊢
  cases hrun : m.perform e with
  | mk result e' =>
    rw [hrun] at hlast
    cases result with
    | ok a => exact hok a e' hrun
    | error f =>
      rcases herror f e' hrun with rfl | ⟨H', hs, hg⟩
      · exact absurd rfl hlast
      · exact ⟨H', outcome_of_grown hopen hs hg⟩

theorem yields_of_grows {m : Action α} {Q : Graph → Engine → α → Prop} (hopen : e.isOpen s = true)
    (h : Grows D s H e m Q) : Yields D s H e m := by
  apply yields_of_cases hopen _ fun f e' hrun => (h.2 f e' hrun).imp_right And.right
  intro a e' hrun
  obtain ⟨H', hs, hg, -⟩ := h.1 a e' hrun
  exact ⟨H', outcome_of_grown hopen hs hg⟩

theorem yields_of_drops {m : Action (List StatementId)} {P : Engine → Removal → Prop}
    (hopen : e.isOpen s = true) (h : Drops D s H e m P)
    (hP : ∀ e₀ w, Sound D s H e₀ → P e₀ w → Removes s H e₀ (w.record s) w.batch) :
    Yields D s H e m := by
  apply yields_of_cases hopen _ fun f e' hrun => (h.2 f e' hrun).imp_right And.right
  intro removed e' hrun
  obtain ⟨e₀, w, hs, hg, hstore, hw, -, rfl⟩ := h.1 removed e' hrun
  exact ⟨H, outcome_of_removes hopen hs hg hstore (hP e₀ w hs hw)⟩

theorem yields_undelete (hs : Sound D s H e) (hnext : e.store.allocator.next ≠ 0)
    (hburied : H.Buries e.store.graph e.undo.batches) : Yields D s H e (undelete s) := by
  intro _
  rw [Action.effect]
  cases hrun : (undelete s).perform e with
  | mk result e' =>
    rcases undelete_restored hs hnext hburied hrun with
      ⟨-, -, rfl⟩ | ⟨-, batch, rest, e₁, -, hundo, hrestored, rfl⟩
    · exact ⟨H, outcome_of_grown hs.isOpen hs (.refl s H e')⟩
    · exact ⟨H, outcome_of_restored hs.isOpen hundo hrestored⟩

theorem outcome_propagate {seeds : List StatementId} {solved : Bool} (hs : Sound D s H e) :
    Outcome D s H e H ((Engine.propagate s seeds solved).effect e).2 := by
  obtain ⟨report, hrun⟩ := perform_propagate (hs.maintained.settled hs.lawful)
  rw [Action.effect, hrun]
  exact outcome_of_grown hs.isOpen hs (.refl s H e)

theorem outcome_addHook {always : Bool} {label : String} (hs : Sound D s H e) :
    Outcome D s H e H (e.addHook s always label) := by
  have hstore : (e.addHook s always label).store = e.store := store_onTransaction
  have he : Evolves s e (e.addHook s always label) := evolves_addHook
  obtain ⟨hs', hg⟩ := hs.of_store (hstore ▸ hs.maintained) (by rw [hstore]) (by rw [hstore]) he
  exact outcome_of_grown hs.isOpen hs' hg

/-- Every operation in an open transaction has an outcome. -/
theorem outcome_run (hs : Sound D s H e) (hnext : e.store.allocator.next ≠ 0)
    (hburied : H.Buries e.store.graph e.undo.batches) (hclient : op.client? = some s)
    (hoffer : ∀ term ∈ op.supplied, D.Offers e.store.graph term)
    (hlast : (op.run e).1 ≠ .error exhausted) : ∃ H', Outcome D s H e H' (op.run e).2 := by
  have hopen := hs.isOpen
  cases op with
  | createRoot t term =>
    cases hclient
    exact yields_of_grows hopen (grows_createRoot hs (hoffer term List.mem_cons_self)) hlast
  | declare t context value =>
    cases hclient
    exact yields_of_grows hopen (grows_declare hs (hoffer value List.mem_cons_self)) hlast
  | specialize t context general argument =>
    cases hclient
    exact yields_of_grows hopen (grows_specialize hs (hoffer argument List.mem_cons_self)) hlast
  | openNested t context term =>
    cases hclient
    exact yields_of_grows hopen (grows_openContext nofun hs (hoffer term List.mem_cons_self)) hlast
  | openUnfolding t context term declaration =>
    cases hclient
    exact yields_of_grows hopen (grows_openContext nofun hs (hoffer term List.mem_cons_self)) hlast
  | removeStatements t context ids =>
    cases hclient
    exact yields_of_drops hopen (drops_removeStatements hs) (fun _ _ hs h => h.removes hs) hlast
  | removeRoot t root =>
    cases hclient
    exact yields_of_drops hopen (drops_removeRoot hs) (fun _ _ hs h => h.removes hs) hlast
  | removeCascade t context id =>
    cases hclient
    exact yields_of_drops hopen (drops_removeCascade hs) (fun _ _ hs h => h.removes hs) hlast
  | copy t target sources map exclude =>
    cases hclient
    rcases sound_copy hs with hexhausted | ⟨-, H', hs', hg⟩
    · refine absurd ?_ hlast
      rw [Op.run, hexhausted]
      rfl
    · exact ⟨H', outcome_of_grown hopen hs' hg⟩
  | undelete t =>
    cases hclient
    exact yields_undelete hs hnext hburied hlast
  | rebuild t id =>
    cases hclient
    exact yields_of_grows hopen (grows_rebuild hs) hlast
  | propagate t seeds solved =>
    cases hclient
    exact ⟨H, outcome_propagate hs⟩
  | identify t id name force =>
    cases hclient
    exact yields_of_grows hopen (grows_identify hs) hlast
  | unidentify t id force =>
    cases hclient
    exact yields_of_grows hopen (grows_unidentify hs) hlast
  | createAuthority t id author =>
    cases hclient
    exact yields_of_grows hopen (grows_createAuthority hs) hlast
  | signAuthority t id =>
    cases hclient
    exact yields_of_grows hopen (grows_signAuthority hs) hlast
  | deleteAuthority t id =>
    cases hclient
    exact yields_of_grows hopen (grows_deleteAuthority hs) hlast
  | lock t id =>
    cases hclient
    exact yields_of_grows hopen (grows_lock hs) hlast
  | addHook t always label =>
    cases hclient
    exact ⟨H, outcome_addHook hs⟩
  | _ => cases hclient

end Engine

end StatementGraph
