import StatementGraph.Proofs.Aborting

namespace StatementGraph

namespace Op

variable {t t' : TransactionId} {e : Engine} {op : Op} {tx : Transaction}

def leavesOpen (t : TransactionId) : Op → Bool
  | commit t' | abort t' => t' ≠ t
  | _ => true

end Op

namespace Engine

open Store

variable {t t' : TransactionId} {e e' : Engine} {op : Op} {tx : Transaction} {x : StatementId}
  {ops : List Op}

theorem own_run (ho : e.Orderly) (hclient : op.client? = some t)
    (htx : e.transactions.get? t = some tx) :
    ∃ tx', (op.run e).2.transactions.get? t = some tx' ∧ tx'.closed = tx.closed ∧
      tx'.before (op.run e).2.store = tx.before e.store ∧
      (∀ x prior, tx.statements.get? x = some prior → tx'.statements.get? x = some prior) ∧
      ∀ x prior, tx.authorities.get? x = some prior → tx'.authorities.get? x = some prior := by
  rcases Op.worked ho hclient with hchanges | @⟨batch, rest, e₁, hbatches, hchanges, he⟩
  · obtain ⟨tx', htx', ha⟩ := hchanges.proceeds.own tx htx
    exact ⟨tx', htx', ha.closed, ha.before, ha.journal, ha.authorities⟩
  · obtain ⟨tx', htx', ha⟩ := hchanges.proceeds.own tx htx
    rw [he, store_onTransaction]
    refine ⟨tx'.addPopped batch, ?_, ha.closed, ha.before, ha.journal, ha.authorities⟩
    rw [get?_onTransaction, if_pos rfl, htx']
    rfl

theorem others_client (ho : e.Orderly) (hclient : op.client? = some t) (ht : t' ≠ t) :
    (op.run e).2.transactions.get? t' = e.transactions.get? t' := by
  rcases Op.worked ho hclient with hchanges | @⟨batch, rest, e₁, hbatches, hchanges, he⟩
  · exact hchanges.proceeds.others t' ht
  · rw [he, get?_onTransaction, if_neg ht]
    exact hchanges.proceeds.others t' ht

/-- What is done outside a transaction, other than closing it, does not touch its journal. -/
theorem others_run (ho : e.Orderly) (hclient : op.client? ≠ some t) (hopen : op.leavesOpen t = true)
    (htx : e.transactions.get? t = some tx) : (op.run e).2.transactions.get? t = some tx := by
  have hclosing {t' : TransactionId} {tx' : Transaction} (hne : t ≠ t')
      (htx' : e.transactions.get? t' = some tx') :
      (e.onTransaction tx'.id Transaction.emptied).transactions.get? t = some tx := by
    rw [get?_onTransaction, (ho.keyed t' tx' htx').1, if_neg hne]
    exact htx
  cases hc : op.client? with
  | some t' =>
    have hne : t ≠ t' := by
      rintro rfl
      exact hclient hc
    rw [others_client ho hc hne]
    exact htx
  | none =>
    cases op with
    | begin timeout =>
      have hne : t ≠ ⟨e.nextTransaction⟩ := by
        rintro rfl
        exact Nat.lt_irrefl _ (ho.keyed _ tx htx).2
      exact (get?_begin.trans (if_neg hne)).trans htx
    | commit t' =>
      rw [Op.run]
      rcases commit_cases e t' with ⟨-, hrun⟩ | ⟨tx', htx', -, hrun⟩ <;> rw [hrun]
      · exact htx
      · rw [(commitWith_fields e tx').2.2.1]
        exact hclosing (Ne.symm (of_decide_eq_true hopen)) htx'
    | abort t' =>
      rw [Op.run]
      rcases abort_cases e t' with ⟨-, hrun⟩ | ⟨tx', htx', -, hrun⟩ <;> rw [hrun]
      · exact htx
      · rw [(abortWith_fields e tx').2.2.1]
        exact hclosing (Ne.symm (of_decide_eq_true hopen)) htx'
    | popUndo =>
      rw [Op.run, Engine.popUndo]
      split <;> exact htx
    | listen | unlisten | takeNotices | close => exact htx
    | _ => cases hc

theorem get?_abort (ho : e.Orderly) (htx : e.transactions.get? t = some tx)
    (hopen : tx.closed = false) :
    (e.abort t).store.get? x = (tx.statements.get? x).getD (e.store.get? x) := by
  rw [abort_of_open htx hopen, (abortWith_fields e tx).1, rollback_eq]
  exact congrFun (congrArg Records.statements
    (records_rollbackIn (.refl _) (.refl _) (ho.journal t tx htx).statements)) x

/-- What a transaction has touched, it puts back as it was then, whatever others do. -/
theorem get?_abort_of_touched {prior : Option Statement} (ho : e.Orderly)
    (htx : e.transactions.get? t = some tx) (hopen : tx.closed = false)
    (hx : tx.statements.get? x = some prior) (hops : ∀ op ∈ ops, op.leavesOpen t = true) :
    ((Op.runAll e ops).abort t).store.get? x = prior := by
  induction ops generalizing e tx with
  | nil =>
    rw [Op.runAll, get?_abort ho htx hopen, hx]
    rfl
  | cons op rest ih =>
    obtain ⟨hop, hrest⟩ := List.forall_mem_cons.1 hops
    by_cases hclient : op.client? = some t
    · obtain ⟨tx', htx', hclosed, -, hjournal, -⟩ := own_run ho hclient htx
      exact ih (ho.run op) htx' (hclosed.trans hopen) (hjournal x prior hx) hrest
    · exact ih (ho.run op) (others_run ho hclient hop htx) hopen hx hrest

/-- A transaction has touched a statement, or it is left as it is. -/
def Undisturbed (t : TransactionId) (x : StatementId) (e : Engine) (op : Op) : Prop :=
  op.client? = some t ∨ (∃ tx prior, e.transactions.get? t = some tx ∧
    tx.statements.get? x = some prior) ∨ (op.run e).2.store.get? x = e.store.get? x

theorem get?_abort_of_untouched (ho : e.Orderly) (htx : e.transactions.get? t = some tx)
    (hopen : tx.closed = false) (hx : tx.statements.get? x = none)
    (hops : ∀ op ∈ ops, op.leavesOpen t = true) (hothers : Op.Along (Undisturbed t x) e ops) :
    ((Op.runAll e ops).abort t).store.get? x = e.store.get? x := by
  induction ops generalizing e tx with
  | nil =>
    rw [Op.runAll, get?_abort ho htx hopen, hx]
    rfl
  | cons op rest ih =>
    rw [Op.runAll]
    obtain ⟨hop, hrest⟩ := List.forall_mem_cons.1 hops
    obtain ⟨hstep, hothers⟩ := hothers
    by_cases hclient : op.client? = some t
    · obtain ⟨tx', htx', hclosed, hbefore, -⟩ := own_run ho hclient htx
      have hsame := congrFun (congrArg Records.statements hbefore) x
      simp only [Transaction.before, hx, Option.getD_none] at hsame
      cases hx' : tx'.statements.get? x with
      | none =>
        rw [hx', Option.getD_none] at hsame
        rw [← hsame]
        exact ih (ho.run op) htx' (hclosed.trans hopen) hx' hrest hothers
      | some prior =>
        -- the first touch: the journal has the record from before
        rw [hx', Option.getD_some] at hsame
        rw [← hsame]
        exact get?_abort_of_touched (ho.run op) htx' (hclosed.trans hopen) hx' hrest
    · rcases hstep with hown | ⟨tx', prior, htx', hprior⟩ | hsame
      · exact absurd hown hclient
      · cases htx.symm.trans htx'
        cases hx.symm.trans hprior
      · rw [← hsame]
        exact ih (ho.run op) (others_run ho hclient hop htx) hopen hx hrest hothers

/-- What one transaction has committed survives the abort of another that had not touched it yet. -/
theorem abort_after_commit {config : Config} {e₀ : Engine} {earlier later : List Op}
    {A B : TransactionId} (hstart : create config .absent = .ok e₀)
    (hcommit : (Op.commit B).run (Op.runAll e₀ earlier) = (.ok (), e))
    (htx : e.transactions.get? A = some tx) (hopen : tx.closed = false)
    (hlater : ∀ op ∈ later, op.leavesOpen A = true) (x : StatementId) :
    (tx.statements.get? x = none → Op.Along (Undisturbed A x) e later →
        ((Op.runAll e later).abort A).store.get? x = (Op.runAll e₀ earlier).store.get? x) ∧
      ∀ prior, tx.statements.get? x = some prior →
        ((Op.runAll e later).abort A).store.get? x = prior := by
  have ho : e.Orderly := by
    have hrun := ((orderly_create hstart).runAll earlier).run (.commit B)
    rw [hcommit] at hrun
    exact hrun
  have hstore : e.store = (Op.runAll e₀ earlier).store := by
    obtain ⟨tx', -, -, hcommitted⟩ := commit_eq_ok (congrArg Prod.fst hcommit)
    have he : e = (Op.runAll e₀ earlier).commitWith tx' :=
      (congrArg Prod.snd hcommit).symm.trans hcommitted
    rw [he]
    exact (commitWith_fields _ tx').1
  refine ⟨fun hx hothers => ?_, fun prior hx => ?_⟩
  · rw [get?_abort_of_untouched ho htx hopen hx hlater hothers, hstore]
  · exact get?_abort_of_touched ho htx hopen hx hlater

end Engine

def rootNamed : List Op :=
  [.begin none, .createRoot ⟨1⟩ (.function ⟨0⟩ (.function ⟨1⟩ (.atom "A") (.atom "B"))
      (.function ⟨2⟩ (.atom "A") (.atom "B"))),
    .commit ⟨1⟩, .begin none, .begin none, .identify ⟨3⟩ (.after 0) ⟨"x", rfl⟩ false]

def rootSolved : List Op :=
  [.specialize ⟨2⟩ (.after 0) (.after 1) (.var (.after 2) (.atom "A"))]

theorem rootNamed_stays : ∃ e : Engine,
    (Op.commit ⟨3⟩).run (Op.runAll (.inMemory {}) rootNamed) = (.ok (), e) ∧
      (Op.runAll e rootSolved).store.isProved (.after 0) = true ∧
      (Op.runAll (.inMemory {}) rootNamed).store.nameOf (.after 0) = some ⟨"x", rfl⟩ ∧
      ((Op.runAll e rootSolved).abort ⟨2⟩).store.get? (.after 0) =
        (Op.runAll (.inMemory {}) rootNamed).store.get? (.after 0) := by
  have hstart : Engine.create {} .absent = .ok (.inMemory {}) := rfl
  have hcommit : (Op.commit ⟨3⟩).run (Op.runAll (.inMemory {}) rootNamed) =
      (.ok (), ((Op.commit ⟨3⟩).run (Op.runAll (.inMemory {}) rootNamed)).2) := rfl
  refine ⟨_, hcommit, by decide +kernel, by decide +kernel, ?_⟩
  exact (Engine.abort_after_commit hstart hcommit rfl rfl (by decide) (.after 0)).1 rfl
    ⟨Or.inl rfl, trivial⟩

/-- If the root is solved first, the name goes with the flag, although it was committed. -/
theorem committed_name_lost :
    (Op.runAll (.inMemory {}) (rootNamed.take 5 ++ rootSolved ++
        [.identify ⟨3⟩ (.after 0) ⟨"x", rfl⟩ false, .commit ⟨3⟩])).store.nameOf (.after 0) =
      some ⟨"x", rfl⟩ ∧
    (Op.runAll (.inMemory {}) (rootNamed.take 5 ++ rootSolved ++
        [.identify ⟨3⟩ (.after 0) ⟨"x", rfl⟩ false, .commit ⟨3⟩, .abort ⟨2⟩])).store.nameOf
      (.after 0) = none := by
  decide +kernel

end StatementGraph
