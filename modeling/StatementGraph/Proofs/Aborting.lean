import StatementGraph.Proofs.Bookkeeping
import StatementGraph.Proofs.Undoing

namespace StatementGraph

namespace Store

variable {s s' : Store}

theorem Reflagged.scopedName (h : s.Reflagged s') (x : StatementId) :
    s'.scopedName x = s.scopedName x := by
  have hgraph := congrFun h.graph x
  have hname := h.names x
  rw [Store.graph, Store.graph] at hgraph
  rw [nameOf, nameOf] at hname
  rw [Store.scopedName, Store.scopedName]
  cases hx : s.get? x with
  | none =>
    rw [hx] at hgraph
    rw [Option.map_eq_none_iff.1 hgraph]
  | some st =>
    rw [hx] at hgraph hname
    obtain ⟨st', hst', hcontent⟩ := Option.map_eq_some_iff.1 hgraph
    rw [hst'] at hname ⊢
    have howner : st'.owner = st.owner := congrArg Content.owner hcontent
    have hidentifier : st'.identifier = st.identifier := hname
    rw [Option.bind_some, Option.bind_some, Statement.scopedName, howner, hidentifier]
    rfl

end Store

namespace Transaction

variable {tx : Transaction} {s s' : Store}

theorem distinctNames_of_scopedName (h : (tx.before s).DistinctNames)
    (hname : ∀ x, s'.scopedName x = s.scopedName x) : (tx.before s').DistinctNames := by
  have hsame (x : StatementId) : ((tx.before s').statements x).bind Statement.scopedName =
      ((tx.before s).statements x).bind Statement.scopedName := by
    rw [before, before]
    cases hx : tx.statements.get? x with
    | none =>
      simp only [hx, Option.getD_none]
      exact hname x
    | some prior => simp only [hx, Option.getD_some]
  intro x y key hx hy
  exact h x y key (hsame x ▸ hx) (hsame y ▸ hy)

theorem Keyed.before (h : tx.Keyed) (hs : ∀ x st, s.get? x = some st → st.id = x)
    (x : StatementId) (st : Statement) (hx : (tx.before s).statements x = some st) : st.id = x := by
  rw [Transaction.before] at hx
  dsimp only at hx
  cases hkept : tx.statements.get? x with
  | none =>
    rw [hkept] at hx
    exact hs x st hx
  | some kept =>
    rw [hkept] at hx
    exact h.statements x st (hkept.trans (congrArg some hx))

end Transaction

theorem Op.run_closed {op : Op} {e : Engine} {t : TransactionId} (h : op.client? = some t)
    (hopen : e.isOpen t = false) : (op.run e).2 = e ∨
      (∃ seeds solved, op = .propagate t seeds solved) ∨
      ∃ always label, op = .addHook t always label := by
  have hrefused {α : Type} {k : Unit → Action α} :
      ((Engine.ensureOpen t >>= k).effect e).2 = e := by
    rw [Action.effect, Engine.perform_closed hopen]
  cases op with
  | copy =>
    cases h
    left
    rw [Op.run, Engine.copy_closed hopen]
  | lock =>
    cases h
    exact Or.inl hrefused
  | propagate t' seeds solved =>
    cases h
    exact Or.inr (Or.inl ⟨seeds, solved, rfl⟩)
  | addHook t' always label =>
    cases h
    exact Or.inr (Or.inr ⟨always, label, rfl⟩)
  | begin | commit | abort | listen | unlisten | takeNotices | popUndo | close => cases h
  | _ =>
    cases h
    exact Or.inl hrefused

theorem Op.changes_closed {op : Op} {e : Engine} {t : TransactionId} (h : op.client? = some t)
    (hopen : e.isOpen t = false) :
    Engine.Changes t e (op.run e).2 ∧ e.store.Reflagged (op.run e).2.store := by
  rcases Op.run_closed h hopen with hsame | ⟨seeds, solved, rfl⟩ | ⟨always, label, rfl⟩
  · rw [hsame]
    exact ⟨.refl t e, .refl _⟩
  · rw [Op.run, Action.effect]
    obtain ⟨report, hrun⟩ | ⟨f, hrun⟩ := Engine.propagate_cases e t seeds solved <;> rw [hrun]
    · exact ⟨Engine.changes_propagation, Engine.reflagged_propagation⟩
    · exact ⟨.refl t e, .refl _⟩
  · refine ⟨(Engine.Change.hook _).changes, ?_⟩
    rw [Op.run, Engine.addHook, Engine.store_onTransaction]
    exact .refl _

namespace Engine

open Store

variable {e e' S : Engine} {t : TransactionId} {tx : Transaction} {op : Op} {ops : List Op}

/-! ### Transactions one after the other -/

/-- What holds while transactions follow one another. -/
structure Serial (e : Engine) : Prop where
  orderly : e.Orderly
  named : e.store.Named
  alone : ∀ t t', e.isOpen t = true → e.isOpen t' = true → t = t'
  distinct : ∀ t tx, e.transactions.get? t = some tx → tx.closed = false →
    (tx.before e.store).DistinctNames

theorem Serial.of_own (h : e.Serial) (ho : e'.Orderly) (hn : e'.store.Named)
    (hopen : e.isOpen t = true)
    (hothers : ∀ t', t' ≠ t → e'.transactions.get? t' = e.transactions.get? t')
    (hown : ∀ tx, e.transactions.get? t = some tx →
      ∃ tx', e'.transactions.get? t = some tx' ∧ tx'.before e'.store = tx.before e.store) :
    e'.Serial := by
  have hsame (t' : TransactionId) (ht' : e'.isOpen t' = true) : t' = t := by
    by_contra hne
    refine hne (h.alone t' t ?_ hopen)
    rwa [isOpen, hothers t' hne] at ht'
  refine ⟨ho, hn, fun t₁ t₂ h₁ h₂ => (hsame t₁ h₁).trans (hsame t₂ h₂).symm,
    fun t' tx' htx' hopen' => ?_⟩
  cases hsame t' (isOpen_iff.2 ⟨tx', htx', hopen'⟩)
  obtain ⟨tx, htx, hclosed⟩ := isOpen_iff.1 hopen
  obtain ⟨tx₁, htx₁, hbefore⟩ := hown tx htx
  cases htx'.symm.trans htx₁
  rw [hbefore]
  exact h.distinct t tx htx hclosed

/-- Serial work goes on when the transactions are the same and no name changes. -/
theorem Serial.aside (h : e.Serial) (ho : e'.Orderly) (hn : e'.store.Named)
    (hname : ∀ x, e'.store.scopedName x = e.store.scopedName x)
    (hopen : ∀ t tx, e'.transactions.get? t = some tx → tx.closed = false →
      e.transactions.get? t = some tx) : e'.Serial := by
  have hstill (t : TransactionId) (ht : e'.isOpen t = true) : e.isOpen t = true := by
    obtain ⟨tx, htx, hclosed⟩ := isOpen_iff.1 ht
    exact isOpen_iff.2 ⟨tx, hopen t tx htx hclosed, hclosed⟩
  refine ⟨ho, hn, fun t t' ht ht' => h.alone t t' (hstill t ht) (hstill t' ht'),
    fun t tx htx hclosed => ?_⟩
  exact Transaction.distinctNames_of_scopedName (h.distinct t tx (hopen t tx htx hclosed) hclosed)
    hname

theorem Serial.resting (h : e.Serial) (hopen : e.isOpen t = true)
    (htransactions : e'.transactions = (e.onTransaction t Transaction.emptied).transactions)
    (t' : TransactionId) : e'.isOpen t' = false :=
  isOpen_emptied h.alone hopen htransactions t'

theorem Serial.closed (h : e.Serial) (ho : e'.Orderly) (hn : e'.store.Named)
    (hopen : e.isOpen t = true)
    (htransactions : e'.transactions = (e.onTransaction t Transaction.emptied).transactions) :
    e'.Serial := by
  have hrest := h.resting hopen htransactions
  refine ⟨ho, hn, fun t t' ht _ => ?_, fun t tx htx hclosed => ?_⟩
  · cases (hrest t).symm.trans ht
  · cases (hrest t).symm.trans (isOpen_iff.2 ⟨tx, htx, hclosed⟩)

theorem Proceeds.open_others (h : Proceeds t e e') (ht : e.isOpen t = false) (t' : TransactionId)
    (tx : Transaction) (htx : e'.transactions.get? t' = some tx) (hclosed : tx.closed = false) :
    e.transactions.get? t' = some tx := by
  by_cases hne : t' = t
  · subst hne
    exfalso
    cases hold : e.transactions.get? t' with
    | none => cases htx.symm.trans (h.unknown hold)
    | some tx₀ =>
      obtain ⟨tx', htx', ha⟩ := h.own tx₀ hold
      cases htx.symm.trans htx'
      have hopen := isOpen_iff.2 ⟨tx₀, hold, ha.closed.symm.trans hclosed⟩
      rw [ht] at hopen
      cases hopen
  · exact h.others t' hne ▸ htx

theorem Serial.work (h : e.Serial) (hclient : op.client? = some t) : (op.run e).2.Serial := by
  have ho := h.orderly.run op
  cases hopen : e.isOpen t with
  | true =>
    rcases Op.worked h.orderly hclient with hchanges | @⟨batch, rest, e₁, hbatches, hchanges, he⟩
    · have hp := hchanges.proceeds
      refine h.of_own ho (hp.named h.named) hopen hp.others fun tx htx => ?_
      obtain ⟨tx', htx', ha⟩ := hp.own tx htx
      exact ⟨tx', htx', ha.before⟩
    · have hp := hchanges.proceeds
      have hstore : (op.run e).2.store = e₁.store := by
        rw [he]
        exact store_onTransaction
      refine h.of_own ho ?_ hopen (fun t' ht' => ?_) fun tx htx => ?_
      · rw [hstore]
        exact hp.named h.named
      · rw [he, get?_onTransaction, if_neg ht']
        exact hp.others t' ht'
      · obtain ⟨tx', htx', ha⟩ := hp.own tx htx
        refine ⟨tx'.addPopped batch, ?_, ?_⟩
        · rw [he, get?_onTransaction, if_pos rfl, htx']
          rfl
        · rw [hstore]
          exact ha.before
  | false =>
    obtain ⟨hchanges, hflags⟩ := Op.changes_closed hclient hopen
    have hp := hchanges.proceeds
    exact h.aside ho (hp.named h.named) hflags.scopedName (hp.open_others hopen)

theorem Serial.run (h : e.Serial) (hseq : op.Sequential e) : (op.run e).2.Serial := by
  have ho := h.orderly.run op
  cases hclient : op.client? with
  | some t => exact h.work hclient
  | none =>
    cases op with
    | begin timeout =>
      refine ⟨ho, h.named, fun t t' ht ht' => ?_, fun t tx htx hclosed => ?_⟩
      · exact (newest_begin hseq ht).trans (newest_begin hseq ht').symm
      · obtain ⟨-, rfl⟩ := open_begin hseq htx hclosed
        exact h.named.unique
    | commit t =>
      rw [Op.run] at ho ⊢
      rcases commit_cases e t with ⟨-, hrun⟩ | ⟨tx, htx, hclosed, hrun⟩ <;> rw [hrun] at ho ⊢
      · exact h
      · obtain ⟨hstore, -, htransactions, -⟩ := commitWith_fields e tx
        rw [(h.orderly.keyed t tx htx).1] at htransactions
        have hn : (e.commitWith tx).store.Named := hstore ▸ h.named
        exact h.closed ho hn (isOpen_iff.2 ⟨tx, htx, hclosed⟩) htransactions
    | abort t =>
      rw [Op.run] at ho ⊢
      rcases abort_cases e t with ⟨-, hrun⟩ | ⟨tx, htx, hclosed, hrun⟩ <;> rw [hrun] at ho ⊢
      · exact h
      · obtain ⟨hstore, -, htransactions, -⟩ := abortWith_fields e tx
        rw [(h.orderly.keyed t tx htx).1] at htransactions
        have hkeyed := (h.orderly.journal t tx htx).before h.orderly.filed.indexed.keyed
        have hn : (e.abortWith tx).store.Named :=
          hstore ▸ named_rollback hkeyed (h.distinct t tx htx hclosed) h.named
        exact h.closed ho hn (isOpen_iff.2 ⟨tx, htx, hclosed⟩) htransactions
    | popUndo =>
      rw [Op.run, Engine.popUndo] at ho ⊢
      split
      case h_1 =>
        refine ⟨?_, h.named, h.alone, h.distinct⟩
        rename_i hpop
        rw [hpop] at ho
        exact ho
      case h_2 => exact h
    | listen | unlisten | takeNotices | close => exact ⟨ho, h.named, h.alone, h.distinct⟩
    | _ => cases hclient

theorem serial_create {config : Config} (h : create config .absent = .ok e) : e.Serial := by
  obtain ⟨hstore, -, -, htransactions⟩ := create_fields h
  have hnone (t : TransactionId) (tx : Transaction) : e.transactions.get? t ≠ some tx := by
    rw [htransactions]
    nofun
  refine ⟨orderly_create h, hstore ▸ named_empty, fun t t' ht _ => ?_,
    fun t tx htx => absurd htx (hnone t tx)⟩
  obtain ⟨tx, htx, -⟩ := isOpen_iff.1 ht
  exact absurd htx (hnone t tx)

theorem Serial.runAll (h : e.Serial) (hseq : Op.Along (fun e op => op.Sequential e) e ops) :
    (Op.runAll e ops).Serial := by
  induction ops generalizing e with
  | nil => exact h
  | cons op rest ih => exact ih (h.run hseq.1) hseq.2

/-! ### One transaction -/

/-- A transaction has been going on alone since it was begun in an engine. -/
structure Underway (S : Engine) (t : TransactionId) (e : Engine) (tx : Transaction) : Prop where
  named : e.store.Named
  own : e.transactions.get? t = some tx
  isOpen : tx.closed = false
  before : tx.before e.store = S.store.records
  locks : ∀ x, e.locks.owner? x = S.locks.owner? x ∨
    S.locks.owner? x = none ∧ e.locks.owner? x = some t ∧ x ∈ tx.held

theorem Underway.proceeds (h : Underway S t e tx) (hp : Proceeds t e e') :
    ∃ tx', Underway S t e' tx' ∧ tx'.popped = tx.popped := by
  obtain ⟨tx', htx', ha⟩ := hp.own tx h.own
  refine ⟨tx', ⟨hp.named h.named, htx', ha.closed.trans h.isOpen, ha.before.trans h.before,
    fun x => ?_⟩, ha.popped⟩
  rcases hp.locks x with hsame | ⟨hfree, hnew, tx₁, htx₁, hx⟩
  · rw [hsame]
    exact (h.locks x).imp_right fun ⟨hfree, hown, hx⟩ => ⟨hfree, hown, ha.held x hx⟩
  · cases htx'.symm.trans htx₁
    rcases h.locks x with hsame | ⟨-, hown, -⟩
    · exact Or.inr ⟨hsame.symm.trans hfree, hnew, hx⟩
    · cases hfree.symm.trans hown

theorem Underway.addPopped {batch : DeletionBatch} (h : Underway S t e tx) :
    Underway S t (e.onTransaction t (·.addPopped batch)) (tx.addPopped batch) := by
  have hstore : (e.onTransaction t (·.addPopped batch)).store = e.store := store_onTransaction
  refine ⟨hstore ▸ h.named, ?_, h.isOpen, hstore ▸ h.before, ?_⟩
  · rw [get?_onTransaction, if_pos rfl, h.own]
    rfl
  · rw [locks_onTransaction]
    exact h.locks

/-- The transaction has the batches that were on the undo log when it was begun and are not now. -/
structure Since (S : Engine) (t : TransactionId) (e : Engine) (tx : Transaction) : Prop where
  orderly : e.Orderly
  underway : Underway S t e tx
  depth : e.undo.depth = S.undo.depth
  log : tx.popped ++ e.undo.batches = S.undo.batches

theorem since_begin (h : S.Serial) (timeout : Option Nat) :
    ∃ tx, Since S (S.begin timeout).1 (S.begin timeout).2 tx :=
  ⟨_, h.orderly.begun timeout, ⟨h.named, get?_begin.trans (if_pos rfl), rfl, rfl,
    fun _ => Or.inl rfl⟩, rfl, rfl⟩

theorem Since.work (h : Since S t e tx) (hclient : op.client? = some t) :
    ∃ tx', Since S t (op.run e).2 tx' := by
  have ho := h.orderly.run op
  rcases Op.worked h.orderly hclient with hchanges | @⟨batch, rest, e₁, hbatches, hchanges, he⟩
  · have hp := hchanges.proceeds
    obtain ⟨tx', hunderway, hpopped⟩ := h.underway.proceeds hp
    refine ⟨tx', ho, hunderway, ?_, ?_⟩
    · rw [hp.undo]
      exact h.depth
    · rw [hp.undo, hpopped]
      exact h.log
  · have hp := hchanges.proceeds
    have hlog : Underway S t { e with undo := { e.undo with batches := rest } } tx :=
      ⟨h.underway.named, h.underway.own, h.underway.isOpen, h.underway.before, h.underway.locks⟩
    obtain ⟨tx', hunderway, hpopped⟩ := hlog.proceeds hp
    rw [he] at ho ⊢
    refine ⟨tx'.addPopped batch, ho, hunderway.addPopped, ?_, ?_⟩
    · rw [onTransaction_fields.1, hp.undo]
      exact h.depth
    · -- the batch has moved from the undo log to the transaction
      have hlog := h.log
      rw [hbatches] at hlog
      rw [onTransaction_fields.1, hp.undo, Transaction.addPopped, hpopped, List.append_assoc]
      exact hlog

end Engine

/-- What can be asked while a transaction goes on alone. -/
def Op.isInside (t : TransactionId) : Op → Bool
  | begin _ | listen _ _ | unlisten _ | takeNotices => true
  | op => op.client? = some t

namespace Engine

open Store

variable {e e' S : Engine} {t : TransactionId} {tx : Transaction} {op : Op} {ops : List Op}

theorem Since.run (h : Since S t e tx) (hinside : op.isInside t = true) :
    ∃ tx', Since S t (op.run e).2 tx' := by
  cases hclient : op.client? with
  | some t' =>
    have ht : some t' = some t := by
      cases op <;> cases hclient <;> exact of_decide_eq_true hinside
    exact h.work (hclient.trans ht)
  | none =>
    have ho := h.orderly.run op
    have hu := h.underway
    cases op with
    | begin timeout =>
      have hne : t ≠ ⟨e.nextTransaction⟩ := by
        rintro rfl
        exact Nat.lt_irrefl _ (h.orderly.keyed _ tx hu.own).2
      have hown : (e.begin timeout).2.transactions.get? t = some tx :=
        (get?_begin.trans (if_neg hne)).trans hu.own
      exact ⟨tx, ho, ⟨hu.named, hown, hu.isOpen, hu.before, hu.locks⟩, h.depth, h.log⟩
    | listen | unlisten | takeNotices =>
      exact ⟨tx, ho, ⟨hu.named, hu.own, hu.isOpen, hu.before, hu.locks⟩, h.depth, h.log⟩
    | commit | abort | popUndo | close => cases hinside
    | _ => cases hclient

theorem Since.runAll (h : Since S t e tx) (hops : ∀ op ∈ ops, op.isInside t = true) :
    ∃ tx', Since S t (Op.runAll e ops) tx' := by
  induction ops generalizing e tx with
  | nil => exact ⟨tx, h⟩
  | cons op rest ih =>
    obtain ⟨hop, hrest⟩ := List.forall_mem_cons.1 hops
    obtain ⟨tx', h'⟩ := h.run hop
    exact ih h' hrest

/-- Close a transaction without its changes, with its journal taken in a given order. -/
def abortIn (e : Engine) (tx : Transaction) (statements : List (StatementId × Option Statement))
    (authorities : List (StatementId × Option Authority)) : Engine :=
  ((e.onTransaction tx.id Transaction.emptied).rollbackIn tx statements authorities).finish tx false

theorem abortWith_eq (e : Engine) (tx : Transaction) :
    e.abortWith tx = e.abortIn tx tx.statements.entries tx.authorities.entries := rfl

theorem abortIn_fields (e : Engine) (tx : Transaction)
    (statements : List (StatementId × Option Statement))
    (authorities : List (StatementId × Option Authority)) :
    (e.abortIn tx statements authorities).store = (e.rollbackIn tx statements authorities).store ∧
      (e.abortIn tx statements authorities).undo = e.undo.pushAll tx.popped.reverse ∧
      (e.abortIn tx statements authorities).locks = e.locks.release tx.id tx.held := by
  let emptied := e.onTransaction tx.id Transaction.emptied
  obtain ⟨hs, hu, -, -⟩ := finish_fields (emptied.rollbackIn tx statements authorities) tx false
  refine ⟨hs.trans ?_, hu.trans ?_, ?_⟩
  · rw [rollbackIn, rollbackIn, store_onTransaction]
  · exact congrArg (·.pushAll tx.popped.reverse) onTransaction_fields.1
  · rw [abortIn, locks_finish]
    exact congrArg (·.release tx.id tx.held) locks_onTransaction

/-- Two engines show the same records, answers, undo log and locks. -/
structure Agrees (S e : Engine) : Prop where
  statements : e.store.statements = S.store.statements
  authorities : e.store.authorities = S.store.authorities
  answers : S.store.SameAnswers e.store
  undo : e.undo = S.undo
  locks : e.locks = S.locks

end Engine

/-- Batches that were taken off can be put back: there is room for them. -/
theorem UndoLog.pushAll_eq (log : UndoLog) (l : List DeletionBatch)
    (h : l.length + log.batches.length ≤ log.depth) :
    log.pushAll l = { log with batches := l.reverse ++ log.batches } := by
  induction l generalizing log with
  | nil => rfl
  | cons batch rest ih =>
    have hpush : log.push batch = { log with batches := batch :: log.batches } := by
      rw [push, List.take_of_length_le]
      rw [List.length_cons] at h ⊢
      omega
    rw [pushAll, List.foldl_cons, hpush, ← pushAll, ih]
    · rw [List.reverse_cons, List.append_assoc]
      rfl
    · simp only [List.length_cons] at h ⊢
      omega

namespace Engine

open Store

variable {e S : Engine} {t : TransactionId} {tx : Transaction}

/-- Taking the transaction back leads to the engine in which it was begun. -/
theorem Since.agrees (h : Since S t e tx) (hS : S.Serial)
    (hfresh : ∀ x, S.locks.owner? x ≠ some t)
    (statements : List (StatementId × Option Statement))
    (authorities : List (StatementId × Option Authority))
    (hst : statements.Perm tx.statements.entries) (hau : authorities.Perm tx.authorities.entries) :
    S.Agrees (e.abortIn tx statements authorities) := by
  have hu := h.underway
  have hkeyed := h.orderly.journal t tx hu.own
  obtain ⟨hstore, hundo, hlocks⟩ := abortIn_fields e tx statements authorities
  have hrecords : (e.abortIn tx statements authorities).store.records = S.store.records := by
    rw [hstore, records_rollbackIn hst hau hkeyed.statements]
    exact hu.before
  have hget (x : StatementId) :
      (e.abortIn tx statements authorities).store.get? x = S.store.get? x :=
    congrFun (congrArg Records.statements hrecords) x
  have hfiled : (e.abortIn tx statements authorities).store.Filed :=
    hstore ▸ filed_rollbackIn h.orderly.filed
  have hnamed : (e.abortIn tx statements authorities).store.Named := by
    rw [hstore]
    apply named_rollbackIn hst hau (hkeyed.before h.orderly.filed.indexed.keyed) _ hu.named
    rw [hu.before]
    exact hS.named.unique
  refine ⟨Table.eq_of_get? hget, Table.eq_of_get? fun x => ?_,
    hS.orderly.filed.sameAnswers hfiled hS.named hnamed hget, ?_, ?_⟩
  · exact congrFun (congrArg Records.authorities hrecords) x
  · have hroom : tx.popped.reverse.length + e.undo.batches.length ≤ e.undo.depth := by
      rw [List.length_reverse, ← List.length_append, h.log, h.depth]
      exact hS.orderly.log
    rw [hundo, UndoLog.pushAll_eq _ _ hroom, List.reverse_reverse, h.log, h.depth]
  · have howners : (e.locks.release tx.id tx.held).owners = S.locks.owners := by
      apply Table.eq_of_get?
      intro x
      change (e.locks.release tx.id tx.held).owner? x = S.locks.owner? x
      rw [owner?_release, (h.orderly.keyed t tx hu.own).1]
      rcases hu.locks x with hsame | ⟨hfree, hown, hx⟩
      · rw [hsame, if_neg fun hheld => hfresh x hheld.2]
      · rw [if_pos ⟨hx, hown⟩, hfree]
    rw [hlocks]
    exact congrArg LockTable.mk howners

/-- Aborting a transaction brings the engine back in which it was begun, whatever was done in it. -/
theorem abort_exact {config : Config} {e₀ : Engine} (hstart : create config .absent = .ok e₀)
    {earlier work : List Op} {timeout : Option Nat}
    (hearlier : Op.Along (fun e op => op.Sequential e) e₀ earlier)
    (hS : Op.runAll e₀ earlier = S) (hbegin : S.begin timeout = (t, e))
    (hwork : ∀ op ∈ work, op.isInside t = true) :
    S.Agrees ((Op.runAll e work).abort t) ∧
      ∃ tx, (Op.runAll e work).transactions.get? t = some tx ∧
        ∀ statements authorities, statements.Perm tx.statements.entries →
          authorities.Perm tx.authorities.entries →
            S.Agrees ((Op.runAll e work).abortIn tx statements authorities) := by
  have hserial : S.Serial := hS ▸ (serial_create hstart).runAll hearlier
  have hfresh (x : StatementId) : S.locks.owner? x ≠ some (S.begin timeout).1 := by
    intro hx
    exact Nat.lt_irrefl _ (hserial.orderly.owners x _ hx)
  obtain ⟨tx₀, hbegun⟩ := since_begin hserial timeout
  rw [hbegin] at hbegun hfresh
  obtain ⟨tx, hsince⟩ := hbegun.runAll hwork
  refine ⟨?_, tx, hsince.underway.own, hsince.agrees hserial hfresh⟩
  rw [abort, hsince.underway.own]
  dsimp only
  rw [hsince.underway.isOpen, if_neg Bool.false_ne_true, abortWith_eq]
  exact hsince.agrees hserial hfresh _ _ (.refl _) (.refl _)

end Engine

def oneName : List Op :=
  [.begin none, .createRoot ⟨1⟩ (.function ⟨0⟩ (.atom "A") (.atom "B")),
    .declare ⟨1⟩ (.after 0) (.var (.after 1) (.atom "A")),
    .identify ⟨1⟩ (.after 2) ⟨"a", rfl⟩ false, .createAuthority ⟨1⟩ (.after 1) "ann",
    .declare ⟨1⟩ (.after 0) (.var (.after 1) (.atom "A")),
    .removeStatements ⟨1⟩ (.after 0) [.after 3], .commit ⟨1⟩]

def upheaval : List Op :=
  [.undelete ⟨2⟩, .unidentify ⟨2⟩ (.after 2) false, .identify ⟨2⟩ (.after 3) ⟨"a", rfl⟩ false,
    .identify ⟨2⟩ (.after 2) ⟨"a", rfl⟩ false, .signAuthority ⟨2⟩ (.after 1), .begin none,
    .createRoot ⟨2⟩ (.atom "B"), .copy ⟨2⟩ (.after 4) [.after 1] {} .empty,
    .removeRoot ⟨2⟩ (.after 0)]

theorem upheaval_undone :
    (Op.runAll (.inMemory {}) oneName).store.ids = [.after 0, .after 1, .after 2] ∧
      (Op.runAll ((Op.runAll (.inMemory {}) oneName).begin none).2 upheaval).store.ids =
        [.after 4] ∧
      (Op.runAll (.inMemory {}) oneName).Agrees
        ((Op.runAll ((Op.runAll (.inMemory {}) oneName).begin none).2 upheaval).abort ⟨2⟩) := by
  have hsequential : Op.Along (fun e op => op.Sequential e) (.inMemory {}) oneName :=
    ⟨fun _ => rfl, trivial, trivial, trivial, trivial, trivial, trivial, trivial, trivial⟩
  have hstart : Engine.create {} .absent = .ok (.inMemory {}) := rfl
  refine ⟨by decide, by decide +kernel, ?_⟩
  exact (Engine.abort_exact hstart hsequential rfl rfl (by decide)).1

end StatementGraph
