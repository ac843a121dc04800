import StatementGraph.Proofs.Aborting
import StatementGraph.Proofs.Archiving

namespace StatementGraph

namespace Engine

open Store

variable {e e' : Engine} {t : TransactionId} {tx : Transaction} {op : Op} {r : Records}

/-! ### The archive of an engine -/

theorem archive_onTransaction {f : Transaction → Transaction} :
    (e.onTransaction t f).archive = e.archive := by
  rw [onTransaction]
  split <;> rfl

theorem Change.archive (h : Change t e e') : e'.archive = e.archive := by
  cases h with
  | write | erase | flag | authority | lock | hook | record => exact archive_onTransaction
  | counter | report => rfl

theorem Changes.archive (h : Changes t e e') : e'.archive = e.archive := by
  induction h with
  | refl => rfl
  | tail _ hstep ih => exact hstep.archive.trans ih

theorem archive_finish (e : Engine) (tx : Transaction) (committed : Bool) :
    (e.finish tx committed).archive = e.archive := by
  have hhooks (hooks : List Hook) (e : Engine) :
      (hooks.foldl (runHook committed) e).archive = e.archive := by
    induction hooks generalizing e with
    | nil => rfl
    | cons hook rest ih =>
      rw [List.foldl_cons, ih, runHook]
      split
      · split <;> rfl
      · rfl
  exact hhooks tx.hooks _

theorem archive_abort : (e.abort t).archive = e.archive := by
  rcases abort_cases e t with ⟨-, hrun⟩ | ⟨tx, -, -, hrun⟩ <;> rw [hrun]
  rw [abortWith, archive_finish]
  exact archive_onTransaction

theorem archive_commitWith :
    (e.commitWith tx).archive = e.archive.map fun a => a.apply (e.writes tx) := by
  have hwrites : (e.onTransaction tx.id Transaction.emptied).writes tx = e.writes tx := by
    rw [writes, writes, store_onTransaction]
  rw [commitWith, archive_finish]
  dsimp only
  rw [archive_onTransaction, hwrites]

theorem archive_run (ho : e.Orderly) (hcommit : ∀ t, op ≠ .commit t) :
    (op.run e).2.archive = e.archive := by
  cases hclient : op.client? with
  | some t =>
    rcases Op.worked ho hclient with hchanges | @⟨batch, rest, e₁, -, hchanges, he⟩
    · exact hchanges.archive
    · rw [he, archive_onTransaction]
      exact hchanges.archive
  | none =>
    cases op with
    | commit t => exact absurd rfl (hcommit t)
    | abort t => exact archive_abort
    | popUndo =>
      rw [Op.run, popUndo]
      split <;> rfl
    | begin | listen | unlisten | takeNotices | close => rfl
    | _ => cases hclient

theorem mirrors_writes {a : RecordArchive} (h : a.Mirrors (tx.before e.store)) :
    (a.apply (e.writes tx)).Mirrors e.store.records where
  statements := by
    refine h.statements.writeJournal (fun _ _ _ => rfl) fun x hx => ?_
    simp only [Transaction.before, hx, Option.getD_none]
    rfl
  authorities := by
    refine h.authorities.writeJournal (fun _ _ _ => rfl) fun x hx => ?_
    simp only [Transaction.before, hx, Option.getD_none]
    rfl

/-! ### The records that stand -/

/-- The records that are committed: as they were when the open transaction began, or as they are. -/
structure Stands (e : Engine) (r : Records) : Prop where
  begun : ∀ t tx, e.transactions.get? t = some tx → tx.closed = false → tx.before e.store = r
  resting : (∀ t, e.isOpen t = false) → e.store.records = r

end Engine

/-- A propagation is asked for in an open transaction, as everything else has to be. -/
def Op.Journalled (e : Engine) : Op → Prop
  | propagate t _ _ => e.isOpen t = true
  | _ => True

namespace Engine

open Store

variable {e e' : Engine} {t : TransactionId} {tx : Transaction} {op : Op} {r : Records}

theorem Stands.own (h : e.Stands r) (hs : e'.Serial) (hopen : e.isOpen t = true)
    (hown : ∀ tx, e.transactions.get? t = some tx →
      ∃ tx', e'.transactions.get? t = some tx' ∧ tx'.closed = false ∧
        tx'.before e'.store = tx.before e.store) : e'.Stands r := by
  obtain ⟨tx, htx, hclosed⟩ := isOpen_iff.1 hopen
  obtain ⟨tx', htx', hclosed', hbefore⟩ := hown tx htx
  have hopen' := isOpen_iff.2 ⟨tx', htx', hclosed'⟩
  refine ⟨fun t₁ tx₁ htx₁ hclosed₁ => ?_, fun hrest => ?_⟩
  · cases hs.alone t₁ t (isOpen_iff.2 ⟨tx₁, htx₁, hclosed₁⟩) hopen'
    cases htx'.symm.trans htx₁
    rw [hbefore]
    exact h.begun t tx htx hclosed
  · rw [hrest t] at hopen'
    cases hopen'

theorem Stands.aside (h : e.Stands r) (hstore : e'.store = e.store)
    (hsame : ∀ t, e'.transactions.get? t = e.transactions.get? t) : e'.Stands r := by
  refine ⟨fun t tx htx hclosed => ?_, fun hrest => ?_⟩
  · rw [hstore]
    exact h.begun t tx (hsame t ▸ htx) hclosed
  · rw [hstore]
    refine h.resting fun t => ?_
    have ht := hrest t
    rwa [isOpen, hsame t] at ht

theorem Stands.work (h : e.Stands r) (hs : e.Serial) (hclient : op.client? = some t)
    (hjournalled : op.Journalled e) : (op.run e).2.Stands r := by
  have hs' := hs.work hclient
  cases hopen : e.isOpen t with
  | true =>
    refine h.own hs' hopen fun tx htx => ?_
    have hclosed : tx.closed = false := by
      obtain ⟨tx', htx', hclosed⟩ := isOpen_iff.1 hopen
      cases htx.symm.trans htx'
      exact hclosed
    rcases Op.worked hs.orderly hclient with hchanges | @⟨batch, rest, e₁, -, hchanges, he⟩
    · obtain ⟨tx', htx', ha⟩ := hchanges.proceeds.own tx htx
      exact ⟨tx', htx', ha.closed.trans hclosed, ha.before⟩
    · obtain ⟨tx', htx', ha⟩ := hchanges.proceeds.own tx htx
      refine ⟨tx'.addPopped batch, ?_, ha.closed.trans hclosed, ?_⟩
      · rw [he, get?_onTransaction, if_pos rfl, htx']
        rfl
      · rw [he, store_onTransaction]
        exact ha.before
  | false =>
    rcases Op.run_closed hclient hopen with hsame | ⟨seeds, solved, rfl⟩ | ⟨always, label, rfl⟩
    · rw [hsame]
      exact h
    · cases hopen.symm.trans hjournalled
    · exact h.aside store_onTransaction fun t' => get?_addHook_of_closed hopen

theorem stands_of_resting (hrest : ∀ t, e.isOpen t = false) (h : e.store.records = r) :
    e.Stands r := by
  refine ⟨fun t tx htx hclosed => ?_, fun _ => h⟩
  have hopen := isOpen_iff.2 ⟨tx, htx, hclosed⟩
  rw [hrest t] at hopen
  cases hopen

theorem Stands.begin (h : e.Stands r) (hrest : ∀ t, e.isOpen t = false) (timeout : Option Nat) :
    (e.begin timeout).2.Stands r := by
  refine ⟨fun t tx htx hclosed => ?_, fun hrest' => ?_⟩
  · obtain ⟨-, rfl⟩ := open_begin hrest htx hclosed
    exact h.resting hrest
  · cases (hrest' _).symm.trans (isOpen_begin timeout)

/-- An engine is backed if its archive mirrors the records that stand. -/
structure Backed (e : Engine) : Prop where
  serial : e.Serial
  mirror : ∃ a r, e.archive = some a ∧ a.Mirrors r ∧ e.Stands r

theorem Backed.commit (h : e.Backed) : (Op.run e (.commit t)).2.Backed := by
  refine ⟨h.serial.run trivial, ?_⟩
  obtain ⟨a, r, ha, hm, hst⟩ := h.mirror
  rw [Op.run]
  rcases commit_cases e t with ⟨-, hrun⟩ | ⟨tx, htx, hclosed, hrun⟩ <;> rw [hrun]
  · exact ⟨a, r, ha, hm, hst⟩
  · obtain ⟨hstore, -, htransactions, -⟩ := commitWith_fields e tx
    rw [(h.serial.orderly.keyed t tx htx).1] at htransactions
    have hrest := h.serial.resting (isOpen_iff.2 ⟨tx, htx, hclosed⟩) htransactions
    refine ⟨a.apply (e.writes tx), e.store.records, ?_, mirrors_writes ?_,
      stands_of_resting hrest ?_⟩
    · rw [archive_commitWith, ha]
      rfl
    · rw [hst.begun t tx htx hclosed]
      exact hm
    · rw [hstore]

theorem Stands.abort (h : e.Stands r) (hs : e.Serial) : (e.abort t).Stands r := by
  rcases abort_cases e t with ⟨-, hrun⟩ | ⟨tx, htx, hclosed, hrun⟩ <;> rw [hrun]
  · exact h
  · obtain ⟨hstore, -, htransactions, -⟩ := abortWith_fields e tx
    rw [(hs.orderly.keyed t tx htx).1] at htransactions
    have hrest := hs.resting (isOpen_iff.2 ⟨tx, htx, hclosed⟩) htransactions
    refine stands_of_resting hrest ?_
    have hkeyed := (hs.orderly.journal t tx htx).before hs.orderly.filed.indexed.keyed
    rw [hstore, (records_rollback hkeyed hs.orderly.filed.indexed).1]
    exact h.begun t tx htx hclosed

theorem Stands.run (h : e.Stands r) (hs : e.Serial) (hcommit : ∀ t, op ≠ .commit t)
    (hseq : op.Sequential e) (hjournalled : op.Journalled e) : (op.run e).2.Stands r := by
  cases hclient : op.client? with
  | some t => exact h.work hs hclient hjournalled
  | none =>
    cases op with
    | begin timeout => exact h.begin hseq timeout
    | commit t => exact absurd rfl (hcommit t)
    | abort t => exact h.abort hs
    | popUndo =>
      rw [Op.run, popUndo]
      split
      · exact ⟨h.begun, h.resting⟩
      · exact h
    | listen | unlisten | takeNotices | close => exact ⟨h.begun, h.resting⟩
    | _ => cases hclient

theorem Backed.run (h : e.Backed) (hseq : op.Sequential e) (hjournalled : op.Journalled e) :
    (op.run e).2.Backed := by
  by_cases hcommit : ∀ t, op ≠ .commit t
  · refine ⟨h.serial.run hseq, ?_⟩
    obtain ⟨a, r, ha, hm, hst⟩ := h.mirror
    exact ⟨a, r, (archive_run h.serial.orderly hcommit).trans ha, hm,
      hst.run h.serial hcommit hseq hjournalled⟩
  · obtain ⟨t, ht⟩ := not_forall_not.1 hcommit
    rw [ht]
    exact h.commit

/-! ### Opening again -/

theorem Stands.orderly (h : e.Stands r) (hs : e.Serial) : r.Orderly := by
  have ho := hs.orderly
  by_cases hrest : ∀ t, e.isOpen t = false
  · rw [← h.resting hrest]
    exact ⟨ho.filed.indexed.keyed, ho.apart, hs.named.unique, ho.authority⟩
  · obtain ⟨t, ht⟩ := not_forall.1 hrest
    obtain ⟨tx, htx, hclosed⟩ := isOpen_iff.1 (Bool.eq_true_of_not_eq_false ht)
    have hjournal := ho.journal t tx htx
    have hkeyed := hjournal.before ho.filed.indexed.keyed
    have hback := (records_rollback hkeyed ho.filed.indexed).1
    rw [← h.begun t tx htx hclosed]
    refine ⟨hkeyed, fun x st hx => ?_, hs.distinct t tx htx hclosed, fun x a hx => ?_⟩
    · rw [← hback] at hx
      exact apart_rollback hjournal ho.apart hx
    · rw [← hback] at hx
      exact authority?_rollback hjournal ho.authority hx

/-- An engine that has just been opened, with records from an archive. -/
structure Mounted (a : RecordArchive) (r : Records) (e : Engine) : Prop where
  archive : e.archive = some a
  store : e.store.ReadFrom r
  transactions : e.transactions = {}
  locks : e.locks = {}
  batches : e.undo.batches = []
  depth : e.undo.depth ≠ 0

theorem create_archive {config : Config} {dir : String} {a : RecordArchive}
    (hvalid : config.validate = .ok ()) (hdir : config.dataDir = some dir) (hm : a.Mirrors r)
    (hr : r.Orderly) (hloads : r.Loads) :
    ∃ e, create config (.archive a) = .ok e ∧ Mounted a r e := by
  obtain ⟨s, hs, hread⟩ := ofArchive_eq hm hr hloads
  have hdepth : (UndoLog.ofDepth config.undoDepth).depth ≠ 0 := by
    rw [UndoLog.ofDepth]
    dsimp only
    split
    case isTrue => exact Nat.one_ne_zero
    case isFalse hne => exact hne
  refine ⟨{ inMemory config with store := s, archive := some a }, ?_, rfl, hread, rfl, rfl, rfl,
    hdepth⟩
  simp only [create, hvalid, hdir, Medium.mount, hs]
  rfl

theorem create_breaks {config : Config} {dir : String} {a : RecordArchive}
    (hvalid : config.validate = .ok ()) (hdir : config.dataDir = some dir) (hm : a.Mirrors r)
    (hloads : ¬r.Loads) : create config (.archive a) = .error (.breakdown .overflow) := by
  simp only [create, hvalid, hdir, Medium.mount, ofArchive_breaks hm hloads]
  rfl

theorem Mounted.resting {a : RecordArchive} (h : Mounted a r e) (t : TransactionId) :
    e.isOpen t = false := by
  rw [isOpen, h.transactions]
  rfl

theorem Mounted.backed {a : RecordArchive} (h : Mounted a r e) (hm : a.Mirrors r)
    (hr : r.Orderly) : e.Backed := by
  have hnone (t : TransactionId) (tx : Transaction) : e.transactions.get? t ≠ some tx := by
    rw [h.transactions]
    exact fun htx => by cases htx
  have hget (x : StatementId) : e.store.get? x = r.statements x :=
    congrFun (congrArg Records.statements h.store.records) x
  have hauthority (x : StatementId) : e.store.authority? x = r.authorities x :=
    congrFun (congrArg Records.authorities h.store.records) x
  have ho : e.Orderly := by
    refine ⟨h.store.filed, fun x st hx => hr.apart x st (hget x ▸ hx),
      fun x a hx => hr.authority x a (hauthority x ▸ hx), fun t tx htx => absurd htx (hnone t tx),
      fun t tx htx => absurd htx (hnone t tx), fun x t hx => ?_, h.depth, ?_, fun batch hb => ?_⟩
    · rw [h.locks] at hx
      cases hx
    · rw [h.batches]
      exact Nat.zero_le _
    · rw [h.batches] at hb
      cases hb
  refine ⟨⟨ho, h.store.named, fun t t' ht _ => ?_, fun t tx htx => absurd htx (hnone t tx)⟩, a, r,
    h.archive, hm, stands_of_resting h.resting h.store.records⟩
  rw [h.resting t] at ht
  cases ht

theorem validate_of_create {config : Config} {medium : Medium} (h : create config medium = .ok e) :
    config.validate = .ok () := by
  rw [create, bind_eq_ok] at h
  obtain ⟨_, hvalid, -⟩ := h
  exact hvalid

theorem mounted_of_create {config : Config} {dir : String} {a : RecordArchive}
    (hdir : config.dataDir = some dir) (hm : a.Mirrors r) (hr : r.Orderly)
    (h : create config (.archive a) = .ok e) : Mounted a r e := by
  have hvalid := validate_of_create h
  by_cases hloads : r.Loads
  · obtain ⟨e', he', hmounted⟩ := create_archive hvalid hdir hm hr hloads
    cases h.symm.trans he'
    exact hmounted
  · cases h.symm.trans (create_breaks hvalid hdir hm hloads)

theorem Backed.reopened {config : Config} {dir : String} {a : RecordArchive} {e' : Engine}
    (h : e.Backed) (ha : e.archive = some a) (hdir : config.dataDir = some dir)
    (hopen : create config (.archive a) = .ok e') : e'.Backed := by
  obtain ⟨a', r, ha', hm, hst⟩ := h.mirror
  cases ha.symm.trans ha'
  have hr := hst.orderly h.serial
  exact (mounted_of_create hdir hm hr hopen).backed hm hr

theorem mounted_create {config : Config} {dir : String} (hdir : config.dataDir = some dir)
    (h : create config .absent = .ok e) :
    ∃ a r, Mounted a r e ∧ a.Mirrors r ∧ r.Orderly := by
  have hm : ({} : RecordArchive).Mirrors ⟨fun _ => none, fun _ => none⟩ :=
    ⟨Archive.rows_empty, Archive.rows_empty⟩
  have hr : (⟨fun _ => none, fun _ => none⟩ : Records).Orderly :=
    ⟨fun _ _ hx => (by cases hx), fun _ _ hx => (by cases hx), fun _ _ _ hx => (by cases hx),
      fun _ _ hx => by cases hx⟩
  obtain ⟨e', he', hmounted⟩ :=
    create_archive (validate_of_create h) hdir hm hr fun _ _ hx => by cases hx
  have hsame : create config .absent = .ok e' := he'
  cases h.symm.trans hsame
  exact ⟨_, _, hmounted, hm, hr⟩

end Engine

/-- The engines that a durable session reaches, which may open its data directory again. -/
inductive Durable (permits : Engine → Op → Prop) : Engine → Prop where
  | start {config : Config} {dir : String} {e : Engine} (hdir : config.dataDir = some dir)
      (h : Engine.create config .absent = .ok e) : Durable permits e
  | step {e : Engine} {op : Op} (h : Durable permits e) (hpermits : permits e op) :
      Durable permits (op.run e).2
  | reopen {config : Config} {dir : String} {a : RecordArchive} {e e' : Engine}
      (h : Durable permits e) (ha : e.archive = some a) (hdir : config.dataDir = some dir)
      (hopen : Engine.create config (.archive a) = .ok e') : Durable permits e'

open Engine

variable {e : Engine}

theorem Durable.backed {permits : Engine → Op → Prop}
    (hpermits : ∀ e op, permits e op → op.Sequential e ∧ op.Journalled e)
    (h : Durable permits e) : e.Backed := by
  induction h with
  | start hdir h =>
    obtain ⟨a, r, hmounted, hm, hr⟩ := mounted_create hdir h
    exact hmounted.backed hm hr
  | step _ hop ih => exact ih.run (hpermits _ _ hop).1 (hpermits _ _ hop).2
  | reopen _ ha hdir hopen ih => exact ih.reopened ha hdir hopen

namespace Engine

open Store

variable {e S : Engine} {t : TransactionId} {tx : Transaction} {ops : List Op}

theorem allocate_next (h : e.store.allocator.next ≠ 0) :
    ∃ x e', allocate.perform e = (.ok x, e') ∧ x.raw = e.store.allocator.next.toNat := by
  obtain ⟨x, hx, htake⟩ := Allocator.take_of_ne_zero h
  refine ⟨x, { e with store := { e.store with allocator := ⟨e.store.allocator.next + 1⟩ } }, ?_, hx⟩
  rw [allocate, perform_get_bind, Store.allocate, htake]
  rfl

theorem Since.archive (h : Since S t e tx) (hops : ∀ op ∈ ops, op.isInside t = true) :
    (Op.runAll e ops).archive = e.archive := by
  induction ops generalizing e tx with
  | nil => rfl
  | cons op rest ih =>
    obtain ⟨hop, hrest⟩ := List.forall_mem_cons.1 hops
    obtain ⟨tx', h'⟩ := h.run hop
    refine (ih h' hrest).trans (archive_run h.orderly ?_)
    rintro t' rfl
    cases hop

theorem Serial.aborted (h : S.Serial) {timeout : Option Nat}
    (hops : ∀ op ∈ ops, op.isInside (S.begin timeout).1 = true) :
    S.Agrees ((Op.runAll (S.begin timeout).2 ops).abort (S.begin timeout).1) ∧
      ((Op.runAll (S.begin timeout).2 ops).abort (S.begin timeout).1).archive = S.archive := by
  obtain ⟨tx₀, hbegun⟩ := since_begin h timeout
  obtain ⟨tx, hsince⟩ := hbegun.runAll hops
  have hfresh (x : StatementId) : S.locks.owner? x ≠ some (S.begin timeout).1 :=
    fun hx => Nat.lt_irrefl _ (h.orderly.owners x _ hx)
  refine ⟨?_, archive_abort.trans (hbegun.archive hops)⟩
  rw [abort, hsince.underway.own]
  dsimp only
  rw [hsince.underway.isOpen, if_neg Bool.false_ne_true, abortWith_eq]
  exact hsince.agrees h hfresh _ _ (.refl _) (.refl _)

end Engine

/-- Opening the data directory again gives the same records and answers, if no id is the last. -/
theorem Durable.reopen_exact (h : Durable (fun e op => op.Sequential e ∧ op.Journalled e) e)
    (hrest : ∀ t, e.isOpen t = false) {config : Config} {dir : String}
    (hvalid : config.validate = .ok ()) (hdir : config.dataDir = some dir) :
    ∃ a, e.archive = some a ∧
      (e.store.records.Loads → ∃ e', create config (.archive a) = .ok e' ∧
        e'.store.statements = e.store.statements ∧ e'.store.authorities = e.store.authorities ∧
        e.store.SameAnswers e'.store ∧
        ∃ x e'', allocate.perform e' = (.ok x, e'') ∧ ∀ y st, e'.store.get? y = some st → y < x) ∧
      (¬e.store.records.Loads → create config (.archive a) = .error (.breakdown .overflow)) ∧
      ∀ timeout work, (∀ op ∈ work, op.isInside (e.begin timeout).1 = true) →
        e.Agrees ((Op.runAll (e.begin timeout).2 work).abort (e.begin timeout).1) ∧
          ((Op.runAll (e.begin timeout).2 work).abort (e.begin timeout).1).archive = some a := by
  have hbacked := h.backed fun _ _ => id
  obtain ⟨a, r, ha, hm, hst⟩ := hbacked.mirror
  have hr := hst.orderly hbacked.serial
  rw [← hst.resting hrest] at hm hr
  refine ⟨a, ha, fun hloads => ?_, create_breaks hvalid hdir hm, fun timeout work hwork => ?_⟩
  · obtain ⟨e', he', hmounted⟩ := create_archive hvalid hdir hm hr hloads
    have hget (x : StatementId) : e'.store.get? x = e.store.get? x :=
      congrFun (congrArg Records.statements hmounted.store.records) x
    have hauthority (x : StatementId) : e'.store.authority? x = e.store.authority? x :=
      congrFun (congrArg Records.authorities hmounted.store.records) x
    obtain ⟨x, e'', hx, hraw⟩ := allocate_next hmounted.store.counter
    refine ⟨e', he', Table.eq_of_get? hget, Table.eq_of_get? hauthority,
      hbacked.serial.orderly.filed.sameAnswers hmounted.store.filed hbacked.serial.named
        hmounted.store.named hget, x, e'', hx, fun y st hy => ?_⟩
    rw [StatementId.lt_iff, hraw]
    exact hmounted.store.past y st hy
  · rw [← ha]
    exact hbacked.serial.aborted hwork

theorem Durable.runAll {permits : Engine → Op → Prop} {ops : List Op} (h : Durable permits e)
    (hops : Op.Along permits e ops) : Durable permits (Op.runAll e ops) := by
  induction ops generalizing e with
  | nil => exact h
  | cons op rest ih => exact ih (h.step hops.1) hops.2

def emptyDirectory : Engine := { inMemory { dataDir := some "data" } with archive := some {} }

/-- A named root with an authority is committed. A second transaction removes it and is aborted. -/
def removalAborted : List Op :=
  [.begin none, .createRoot ⟨1⟩ (.function ⟨0⟩ (.atom "A") (.atom "A")),
    .identify ⟨1⟩ (.after 0) ⟨"m", rfl⟩ false, .createAuthority ⟨1⟩ (.after 0) "ann", .commit ⟨1⟩,
    .begin none, .removeRoot ⟨2⟩ (.after 0), .createRoot ⟨2⟩ (.atom "B"), .abort ⟨2⟩]

theorem removalAborted_reopened :
    (Op.runAll emptyDirectory removalAborted).store.ids = [.after 0, .after 1] ∧
      ∃ a e', (Op.runAll emptyDirectory removalAborted).archive = some a ∧
        create { dataDir := some "data" } (.archive a) = .ok e' ∧
        e'.store.statements = (Op.runAll emptyDirectory removalAborted).store.statements ∧
        e'.store.authorities = (Op.runAll emptyDirectory removalAborted).store.authorities := by
  have hstart : Durable (fun e op => op.Sequential e ∧ op.Journalled e) emptyDirectory :=
    @Durable.start _ { dataDir := some "data" } _ _ rfl rfl
  have hrun : Durable (fun e op => op.Sequential e ∧ op.Journalled e)
      (Op.runAll emptyDirectory removalAborted) := by
    refine hstart.runAll ⟨⟨fun _ => rfl, trivial⟩, ⟨trivial, trivial⟩, ⟨trivial, trivial⟩,
      ⟨trivial, trivial⟩, ⟨trivial, trivial⟩, ⟨allClosed_iff.2 ?_, trivial⟩, ⟨trivial, trivial⟩,
      ⟨trivial, trivial⟩, ⟨trivial, trivial⟩, trivial⟩
    decide +kernel
  have hrest : ∀ t, (Op.runAll emptyDirectory removalAborted).isOpen t = false :=
    allClosed_iff.2 (by decide +kernel)
  obtain ⟨a, ha, hopen, -⟩ :=
    @Durable.reopen_exact _ hrun hrest { dataDir := some "data" } "data" rfl rfl
  obtain ⟨e', he', hstatements, hauthorities, -⟩ :=
    hopen (Store.loads_records.2 (by decide +kernel))
  exact ⟨by decide +kernel, a, e', ha, he', hstatements, hauthorities⟩

/-- A declaration with a type of its own, whose root is checked only after the commit. -/
def checkedLate : List Op :=
  [.begin none,
    .createRoot ⟨1⟩ (.function ⟨1⟩
      (.function ⟨2⟩ (.atom "X")
        (.apply (.atom "F") (.function ⟨7⟩ (.atom "A") (.param ⟨7⟩ (.atom "A")))))
      (.function ⟨3⟩ (.atom "X")
        (.apply (.atom "F") (.function ⟨7⟩ (.atom "A") (.param ⟨7⟩ (.atom "A")))))),
    .declare ⟨1⟩ (.after 0) (.apply
      (.var (.after 1) (.function ⟨2⟩ (.atom "X") (.apply (.atom "F")
        (.function ⟨7⟩ (.atom "A") (.param ⟨7⟩ (.var (.after 5) (.atom "A")))))))
      (.var (.after 2) (.atom "X"))),
    .createRoot ⟨1⟩ (.function ⟨0⟩ (.atom "A") (.atom "B")), .commit ⟨1⟩,
    .propagate ⟨1⟩ [.after 0] true]

/-- A flag that changes in a closed transaction is lost when the data directory is opened again. -/
theorem closed_propagation_lost :
    Durable (fun e op => op.Sequential e) (Op.runAll emptyDirectory checkedLate) ∧
      (∀ t, (Op.runAll emptyDirectory checkedLate).isOpen t = false) ∧
      (Op.runAll emptyDirectory checkedLate).store.isProved (.after 0) = true ∧
      ((Op.runAll emptyDirectory checkedLate).archive.bind fun a =>
        (create { dataDir := some "data" } (.archive a)).toOption).map
          (·.store.isProved (.after 0)) = some false := by
  have hstart : Durable (fun e op => op.Sequential e) emptyDirectory :=
    @Durable.start _ { dataDir := some "data" } _ _ rfl rfl
  refine ⟨hstart.runAll ⟨fun _ => rfl, trivial, trivial, trivial, trivial, trivial, trivial⟩,
    allClosed_iff.2 (by decide +kernel), by decide +kernel, by decide +kernel⟩

end StatementGraph
