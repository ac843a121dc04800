import StatementGraph.Proofs.Durability
import StatementGraph.Proofs.Outcomes
import StatementGraph.Proofs.Sealing

namespace StatementGraph

/-- The ledger now, and as it was when the last transaction began. -/
structure Notary where
  now : Ledger := {}
  begun : Ledger := {}

namespace Notary

def after (n : Notary) (e : Engine) : Op → Notary
  | .begin _ => { n with begun := n.now }
  | .abort t => if e.isOpen t then { n with now := n.begun } else n
  | .signAuthority t x =>
    match ((Engine.signAuthority t x).perform e).1 with
    | .ok _ => { n with now := n.now.sign x (e.store.nameOf x) }
    | .error _ => n
  | .undelete t =>
    match ((Engine.undelete t).perform e).1 with
    | .ok report => { n with now := n.now.loseAll (report.unnamed.map Prod.fst) }
    | .error _ => n
  | _ => n

theorem begun_after {n : Notary} {e : Engine} {op : Op} {t : TransactionId}
    (h : op.client? = some t) : (n.after e op).begun = n.begun := by
  cases op with
  | begin | abort => cases h
  | signAuthority | undelete =>
    rw [after]
    split <;> rfl
  | _ => rfl

theorem after_closed {n : Notary} {e : Engine} {op : Op} {t : TransactionId}
    (h : op.client? = some t) (hopen : e.isOpen t = false) : n.after e op = n := by
  cases op with
  | begin | abort => cases h
  | signAuthority =>
    cases h
    rw [after, Engine.signAuthority, Engine.perform_closed hopen]
  | undelete =>
    cases h
    rw [after, Engine.undelete, Engine.perform_closed hopen]
  | _ => rfl

def afterAll (n : Notary) (e : Engine) : List Op → Notary
  | [] => n
  | op :: ops => (n.after e op).afterAll (op.run e).2 ops

end Notary

namespace Transaction

variable {tx : Transaction} {s s' : Store}

theorem graph_before (tx : Transaction) (hr : s.Reflagged s') :
    (tx.before s').graph = (tx.before s).graph := by
  funext x
  rw [Records.graph, Records.graph, before, before]
  dsimp only
  cases tx.statements.get? x with
  | none => exact congrFun hr.graph x
  | some kept => rfl

theorem nameOf_before (tx : Transaction) (hr : s.Reflagged s') (x : StatementId) :
    (tx.before s').nameOf x = (tx.before s).nameOf x := by
  rw [Records.nameOf, Records.nameOf, before, before]
  dsimp only
  cases tx.statements.get? x with
  | none => exact hr.names x
  | some kept => rfl

theorem authorities_before (tx : Transaction) (hr : s.Reflagged s') :
    (tx.before s').authorities = (tx.before s).authorities := by
  funext x
  simp only [before, Store.authority?, hr.authorities]

end Transaction

theorem Transaction.deletions_addDeletions (tx : Transaction) (batch : DeletionBatch) :
    (tx.addDeletions batch).deletions.Sublist (tx.deletions ++ [batch]) := by
  rw [addDeletions]
  split
  · exact List.sublist_append_left _ _
  · exact .refl _

namespace Engine

open Store Ledger

variable {t : TransactionId} {e e' : Engine} {x : StatementId} {l : Ledger} {n : Notary} {op : Op}
  {ops : List Op}

/-! ### Work in the open transaction -/

/-- A ledger vouches for an engine, its undo log and the deletions of a transaction. -/
def Vouched (l : Ledger) (t : TransactionId) (e : Engine) : Prop :=
  l.Vouches e.store.allocator e.store.records (e.undo.batches ++ e.deletionsIn t)

/-- What an operation leaves: a ledger that vouches, and owners that are contexts if they were. -/
structure Endures (l : Ledger) (t : TransactionId) (e e' : Engine) : Prop where
  vouched : Vouched l t e'
  past : ∀ y, e.store.allocator.Past y → e'.store.allocator.Past y
  owned : e.store.graph.Owned → e'.store.graph.Owned

theorem Upholds.endures (h : Upholds t e e') (hopen : e.isOpen t = true) (hl : Vouched l t e) :
    Endures l t e e' := by
  refine ⟨?_, h.past, h.owned⟩
  rw [Vouched, h.evolves.undo, (h.evolves.batchesIn hopen).2]
  exact h.vouches hl

theorem Evicts.endures (h : Evicts t e e') (hopen : e.isOpen t = true) (hl : Vouched l t e) :
    Endures l t e e' := by
  cases h with
  | refused h => exact (upholds_of_store h.evolves h.store).endures hopen hl
  | @done S e₁ r hlocks ho h he hr =>
    have hevolves := hlocks.evolves.trans (h.evolves.trans he)
    obtain ⟨tx, -, htx, -, htx'⟩ := batchesIn_onTransaction (e := e₁)
      (f := (·.addDeletions r.batch)) (hevolves.isOpen hopen)
    have hallocator : e₁.store.allocator = r.engine.store.allocator := hr.allocator
    rw [Vouched, ← hlocks.store] at hl
    have hkept := (vouches_withdrawn ho h.toWithdraws hl).reflagged hr
    rw [← hallocator] at hkept
    refine ⟨?_, fun y hy => ?_, fun howned => ?_⟩
    · rw [Vouched, store_onTransaction, onTransaction_fields.1, hevolves.undo]
      refine hkept.fewer (List.Sublist.subperm ?_)
      rw [htx', List.append_assoc, ← (hevolves.batchesIn hopen).2, htx]
      exact (tx.deletions_addDeletions r.batch).append_left _
    · rw [store_onTransaction, hallocator, h.allocator, hlocks.store]
      exact hy
    · rw [store_onTransaction, hr.graph]
      exact h.owned (hlocks.store ▸ howned)

theorem Vouched.undelete (hl : Vouched l t e) (ho : e.Orderly)
    (hnext : e.store.allocator.next ≠ 0) :
    (∃ f, (Engine.undelete t).perform e = (.error f, e)) ∨
      ∃ batch rest report e', e.undo.batches = batch :: rest ∧
        (Engine.undelete t).perform e = (.ok report, e'.onTransaction t (·.addPopped batch)) ∧
        Revives t batch { e with undo := { e.undo with batches := rest } } report e' := by
  refine (undelete_outcome t e).imp_right ?_
  rintro ⟨-, batch, rest, hbatches, hrun⟩
  have hmem (d : Deleted) (hd : d ∈ batch) : d ∈ (e.undo.batches ++ e.deletionsIn t).flatten := by
    rw [hbatches, List.cons_append, List.flatten_cons]
    exact List.mem_append_left _ hd
  have hapart : batch.Pairwise Deleted.Apart := by
    have hall := hl.apart
    rw [hbatches, List.cons_append, List.flatten_cons] at hall
    exact (List.pairwise_append.1 hall).1
  exact ⟨batch, rest, _, _, hbatches, hrun, revives_batch ho hbatches hl.paired hnext
    (fun d hd => hl.dormant d (hmem d hd)) hapart⟩

theorem endures_undelete (ho : e.Orderly) (hnext : e.store.allocator.next ≠ 0)
    (hopen : e.isOpen t = true) (hl : Vouched n.now t e) :
    Endures (n.after e (.undelete t)).now t e ((undelete t).perform e).2 := by
  rw [Notary.after]
  rcases hl.undelete ho hnext with
    ⟨f, hrun⟩ | ⟨batch, rest, report, e₁, hbatches, hrun, hrevives⟩
  · rw [hrun]
    exact ⟨hl, fun _ hy => hy, id⟩
  · rw [Vouched, hbatches, List.cons_append] at hl
    have hopen₁ := hrevives.evolves.isOpen hopen
    obtain ⟨tx, -, htx, -, htx'⟩ := batchesIn_onTransaction (e := e₁)
      (f := (·.addPopped batch)) hopen₁
    have hdeletions : e₁.deletionsIn t = e.deletionsIn t := (hrevives.evolves.batchesIn hopen).2
    rw [hrun]
    refine ⟨?_, fun y hy => ?_, ?_⟩
    · rw [Vouched, store_onTransaction, onTransaction_fields.1, hrevives.evolves.undo, htx']
      change Vouches _ _ _ (rest ++ tx.deletions)
      rw [← htx, hdeletions]
      exact vouches_revived hrevives hl
    · rw [store_onTransaction, hrevives.allocator]
      exact hy
    · rw [store_onTransaction]
      exact hrevives.owned

/-- Signing is refused, or is done with the authority that there was. -/
theorem signAuthority_cases (t : TransactionId) (x : StatementId) (e : Engine) :
    (∃ f e', (signAuthority t x).perform e = (.error f, e') ∧ Locks t e e') ∨
      ∃ a e', (signAuthority t x).perform e = (.ok a.sign, e') ∧
        e.store.authority? x = some a ∧ e'.store = e.store.setAuthority x (some a.sign) ∧
        Evolves t e e' := by
  rw [signAuthority]
  cases hopen : e.isOpen t with
  | false => exact Or.inl ⟨_, e, perform_closed hopen, refl_of (Locks t) e⟩
  | true =>
    rw [perform_bind, perform_ensureOpen hopen]
    dsimp only
    have hlocks : Within (Locks t) e (lock t x) := locks_lock
    rw [Within] at hlocks
    rw [perform_bind]
    cases hlock : (lock t x).perform e with
    | mk r e₁ =>
      rw [hlock] at hlocks
      cases r with
      | error f => exact Or.inl ⟨f, e₁, rfl, hlocks⟩
      | ok u =>
        dsimp only
        rw [perform_bind, requireAuthority, perform_get_bind]
        cases ha : e₁.store.authority? x with
        | none => exact Or.inl ⟨_, e₁, rfl, hlocks⟩
        | some a =>
          refine Or.inr ⟨a, e₁.setAuthority t x (some a.sign), rfl, ?_, ?_,
            hlocks.evolves.trans evolves_setAuthority⟩
          · rw [← hlocks.store]
            exact ha
          · rw [store_setAuthority, hlocks.store]

theorem endures_signAuthority (hopen : e.isOpen t = true) (hl : Vouched n.now t e) :
    Endures (n.after e (.signAuthority t x)).now t e ((signAuthority t x).perform e).2 := by
  rw [Notary.after]
  rcases signAuthority_cases t x e with ⟨f, e', hrun, hlocks⟩ | ⟨a, e', hrun, ha, hstore, hevolves⟩
  · rw [hrun]
    exact (upholds_of_store hlocks.evolves hlocks.store).endures hopen hl
  · rw [hrun]
    refine ⟨?_, fun y hy => ?_, ?_⟩
    · rw [Vouched, hevolves.undo, (hevolves.batchesIn hopen).2]
      exact vouches_signed hl ha hstore
    · rw [hstore]
      exact hy
    · rw [hstore]
      exact id

/-- An operation in the open transaction. -/
theorem endures_run (ho : e.Orderly) (hnext : e.store.allocator.next ≠ 0)
    (hopen : e.isOpen t = true) (hclient : op.client? = some t)
    (hlast : (op.run e).1 ≠ .error exhausted) (hl : Vouched n.now t e) :
    Endures (n.after e op).now t e (op.run e).2 := by
  have hi := ho.filed.indexed
  have hupholds {e' : Engine} (h : Upholds t e e') : Endures n.now t e e' := h.endures hopen hl
  have hmakes (h : op.makes = true) : Endures n.now t e (op.run e).2 :=
    hupholds (((Enlarged.start ho hl.past hl.paired).run hclient h hlast).upholds hl)
  have hremoves (h : op.removes = true) : Endures n.now t e (op.run e).2 :=
    (evicts_run ho hl.paired hclient h).endures hopen hl
  cases op with
  | createRoot | declare | specialize | openNested | openUnfolding | copy => exact hmakes rfl
  | removeStatements | removeRoot | removeCascade => exact hremoves rfl
  | undelete => cases hclient; exact endures_undelete ho hnext hopen hl
  | signAuthority => cases hclient; exact endures_signAuthority hopen hl
  | rebuild => cases hclient; exact hupholds (upholds_rebuild hi)
  | propagate t seeds solved =>
    cases hclient
    rw [Op.run, Action.effect]
    obtain ⟨report, hrun⟩ | ⟨f, hrun⟩ := propagate_cases e t seeds solved <;> rw [hrun]
    · exact hupholds (upholds_of_reflagged evolves_propagation reflagged_propagation)
    · exact hupholds (upholds_of_reflagged (.refl t e) (.refl _))
  | identify => cases hclient; exact hupholds (upholds_identify hi)
  | unidentify => cases hclient; exact hupholds (upholds_unidentify hi)
  | createAuthority => cases hclient; exact hupholds upholds_createAuthority
  | deleteAuthority => cases hclient; exact hupholds upholds_deleteAuthority
  | lock => cases hclient; exact hupholds upholds_lock
  | addHook =>
    cases hclient
    exact hupholds (upholds_of_store evolves_addHook store_onTransaction)
  | _ => cases hclient

/-! ### Runs -/

/-- What holds in every run of transactions one after the other. -/
structure Attested (n : Notary) (e : Engine) : Prop where
  serial : e.Serial
  counter : e.store.allocator.next ≠ 0
  resting : (∀ t, e.isOpen t = false) →
    n.now.Vouches e.store.allocator e.store.records e.undo.batches
  busy : ∀ t, e.isOpen t = true → Vouched n.now t e
  begun : ∀ t tx, e.transactions.get? t = some tx → tx.closed = false →
    n.begun.Vouches e.store.allocator (tx.before e.store) (e.undo.batches ++ tx.popped)

theorem Attested.covers (h : Attested n e) {a : Authority} (ha : e.store.authority? x = some a)
    (hvalid : a.valid = true) : n.now.Covers x (e.store.nameOf x) := by
  by_cases hrest : ∀ t, e.isOpen t = false
  · exact (h.resting hrest).covers x a ha hvalid
  · obtain ⟨t, ht⟩ := not_forall.1 hrest
    exact (h.busy t (Bool.eq_true_of_not_eq_false ht)).covers x a ha hvalid

/-- What the open transaction will put back is the same after an operation in it. -/
theorem begun_run (ho : e.Orderly) (hclient : op.client? = some t) {tx : Transaction}
    (htx : e.transactions.get? t = some tx) :
    ∃ tx', (op.run e).2.transactions.get? t = some tx' ∧ tx'.closed = tx.closed ∧
      tx'.before (op.run e).2.store = tx.before e.store ∧
      ((op.run e).2.undo.batches ++ tx'.popped).Perm (e.undo.batches ++ tx.popped) := by
  rcases Op.worked ho hclient with hchanges | @⟨batch, rest, e₁, hbatches, hchanges, he⟩
  · obtain ⟨tx', htx', ha⟩ := hchanges.proceeds.own tx htx
    refine ⟨tx', htx', ha.closed, ha.before, ?_⟩
    rw [hchanges.proceeds.undo, ha.popped]
  · obtain ⟨tx', htx', ha⟩ := hchanges.proceeds.own tx htx
    refine ⟨tx'.addPopped batch, ?_, ha.closed, ?_, ?_⟩
    · rw [he, get?_onTransaction, if_pos rfl, htx']
      rfl
    · rw [he, store_onTransaction]
      exact ha.before
    · rw [he, onTransaction_fields.1, hchanges.proceeds.undo, hbatches, Transaction.addPopped,
        ha.popped, ← List.append_assoc]
      exact List.perm_append_singleton _ _

theorem Attested.own (h : Attested n e) (hs : (op.run e).2.Serial)
    (hclient : op.client? = some t) (hopen : e.isOpen t = true) (hlast : op.Lasting e) :
    Attested (n.after e op) (op.run e).2 := by
  obtain ⟨hnow, hpast, -⟩ :=
    endures_run h.serial.orderly h.counter hopen hclient hlast.1 (h.busy t hopen)
  obtain ⟨tx, htx, hclosed⟩ := isOpen_iff.1 hopen
  obtain ⟨tx', htx', hclosed', hbefore, hperm⟩ := begun_run h.serial.orderly hclient htx
  have hopen' := isOpen_iff.2 ⟨tx', htx', hclosed'.trans hclosed⟩
  refine ⟨hs, hlast.2, fun hrest => ?_, fun t₁ ht₁ => ?_, fun t₁ tx₁ htx₁ hclosed₁ => ?_⟩
  · rw [hrest t] at hopen'
    cases hopen'
  · cases hs.alone t₁ t ht₁ hopen'
    exact hnow
  · cases hs.alone t₁ t (isOpen_iff.2 ⟨tx₁, htx₁, hclosed₁⟩) hopen'
    cases htx'.symm.trans htx₁
    rw [Notary.begun_after hclient, hbefore]
    exact ((h.begun t tx htx hclosed).counter hpast).fewer hperm.subperm

theorem Attested.aside (h : Attested n e) (hs : e'.Serial) (hr : e.store.Reflagged e'.store)
    (hundo : e'.undo = e.undo)
    (hsame : ∀ t, e.isOpen t = true ∨ e'.isOpen t = true →
      e'.transactions.get? t = e.transactions.get? t) : Attested n e' := by
  have hopen (t : TransactionId) (ht : e'.isOpen t = true) : e.isOpen t = true := by
    rwa [isOpen, hsame t (Or.inr ht)] at ht
  refine ⟨hs, hr.allocator ▸ h.counter, fun hrest => ?_, fun t ht => ?_, fun t tx htx hclosed => ?_⟩
  · rw [hr.allocator, hundo]
    refine (h.resting fun t => Bool.eq_false_iff.2 fun ht => ?_).reflagged hr
    have ht' := ht
    rw [isOpen, ← hsame t (Or.inl ht)] at ht'
    cases ht'.symm.trans (hrest t)
  · rw [Vouched, hr.allocator, hundo, deletionsIn, readIn_congr (hsame t (Or.inr ht))]
    exact (h.busy t (hopen t ht)).reflagged hr
  · have ht := isOpen_iff.2 ⟨tx, htx, hclosed⟩
    rw [hsame t (Or.inr ht)] at htx
    rw [hr.allocator, hundo]
    exact (h.begun t tx htx hclosed).congr (tx.graph_before hr) (tx.nameOf_before hr)
      (tx.authorities_before hr)

theorem Attested.work (h : Attested n e) (hclient : op.client? = some t) (hlast : op.Lasting e) :
    Attested (n.after e op) (op.run e).2 := by
  have hs := h.serial.work hclient
  cases hopen : e.isOpen t with
  | true => exact h.own hs hclient hopen hlast
  | false =>
    obtain ⟨hchanges, hflags⟩ := Op.changes_closed hclient hopen
    have hp := hchanges.proceeds
    rw [Notary.after_closed hclient hopen]
    refine h.aside hs hflags hp.undo fun t' ht' => hp.others t' ?_
    rintro rfl
    rcases ht' with ht' | ht'
    · cases hopen.symm.trans ht'
    · obtain ⟨tx, htx, hclosed⟩ := isOpen_iff.1 ht'
      cases hopen.symm.trans (isOpen_iff.2 ⟨tx, hp.open_others hopen _ tx htx hclosed, hclosed⟩)

theorem Attested.begin (h : Attested n e) (hrest : ∀ t, e.isOpen t = false) (timeout : Option Nat) :
    Attested (n.after e (.begin timeout)) (e.begin timeout).2 := by
  have hseq : (Op.begin timeout).Sequential e := hrest
  have hs : (e.begin timeout).2.Serial := h.serial.run hseq
  have hrecords := h.resting hrest
  have hget {t : TransactionId} {tx : Transaction}
      (htx : (e.begin timeout).2.transactions.get? t = some tx) (hclosed : tx.closed = false) :
      tx.before e.store = e.store.records ∧ tx.deletions = [] ∧ tx.popped = [] := by
    obtain ⟨-, rfl⟩ := open_begin hrest htx hclosed
    exact ⟨rfl, rfl, rfl⟩
  refine ⟨hs, h.counter, fun _ => hrecords, fun t ht => ?_, fun t tx htx hclosed => ?_⟩
  · obtain ⟨tx, htx, hclosed⟩ := isOpen_iff.1 ht
    rw [Vouched, deletionsIn, readIn_eq htx, (hget htx hclosed).2.1, List.append_nil]
    exact hrecords
  · obtain ⟨hbefore, -, hpopped⟩ := hget htx hclosed
    change n.now.Vouches e.store.allocator (tx.before e.store) (e.undo.batches ++ tx.popped)
    rw [hbefore, hpopped, List.append_nil]
    exact hrecords

theorem Attested.of_resting (hs : e.Serial) (hnext : e.store.allocator.next ≠ 0)
    (hrest : ∀ t, e.isOpen t = false)
    (h : n.now.Vouches e.store.allocator e.store.records e.undo.batches) : Attested n e := by
  refine ⟨hs, hnext, fun _ => h, fun t ht => ?_, fun t tx htx hclosed => ?_⟩
  · cases (hrest t).symm.trans ht
  · cases (hrest t).symm.trans (isOpen_iff.2 ⟨tx, htx, hclosed⟩)

theorem Attested.commit (h : Attested n e) : Attested n (Op.run e (.commit t)).2 := by
  have hs : (Op.run e (.commit t)).2.Serial := h.serial.run trivial
  rw [Op.run] at hs ⊢
  rcases commit_cases e t with ⟨-, hrun⟩ | ⟨tx, htx, hclosed, hrun⟩ <;> rw [hrun] at hs ⊢
  · exact h
  · have hopen := isOpen_iff.2 ⟨tx, htx, hclosed⟩
    obtain ⟨hstore, hundo, htransactions, -⟩ := commitWith_fields e tx
    rw [(h.serial.orderly.keyed t tx htx).1] at htransactions
    have hbusy := h.busy t hopen
    rw [Vouched, deletionsIn, readIn_eq htx] at hbusy
    refine .of_resting hs ?_ (h.serial.resting hopen htransactions) ?_
    · rw [hstore]
      exact h.counter
    · rw [hstore, hundo]
      exact hbusy.fewer (e.undo.subperm_pushAll tx.deletions)

theorem Attested.abort (h : Attested n e) :
    Attested (n.after e (.abort t)) (Op.run e (.abort t)).2 := by
  have hs : (Op.run e (.abort t)).2.Serial := h.serial.run trivial
  rw [Op.run] at hs ⊢
  rw [Notary.after]
  rcases abort_cases e t with ⟨hclosed, hrun⟩ | ⟨tx, htx, hclosed, hrun⟩ <;> rw [hrun] at hs ⊢
  · rw [hclosed, if_neg Bool.false_ne_true]
    exact h
  · have hopen := isOpen_iff.2 ⟨tx, htx, hclosed⟩
    rw [if_pos hopen]
    obtain ⟨hstore, hundo, htransactions, -⟩ := abortWith_fields e tx
    rw [(h.serial.orderly.keyed t tx htx).1] at htransactions
    have ho := h.serial.orderly
    obtain ⟨hrecords, -, hallocator⟩ := records_rollback
      ((ho.journal t tx htx).before ho.filed.indexed.keyed) ho.filed.indexed
    refine .of_resting hs ?_ (h.serial.resting hopen htransactions) ?_
    · rw [hstore, hallocator]
      exact h.counter
    · rw [hstore, hallocator, hrecords, hundo]
      refine (h.begun t tx htx hclosed).fewer ((e.undo.subperm_pushAll _).trans ?_)
      exact (tx.popped.reverse_perm.append_left _).subperm

theorem Attested.fewer (h : Attested n e) {batches : List DeletionBatch}
    (hB : batches.Sublist e.undo.batches) :
    Attested n { e with undo := { e.undo with batches } } where
  serial := ⟨h.serial.orderly.fewer hB, h.serial.named, h.serial.alone, h.serial.distinct⟩
  counter := h.counter
  resting hrest := (h.resting hrest).fewer hB.subperm
  busy t ht := (h.busy t ht).fewer (hB.append_right _).subperm
  begun t tx htx hclosed := (h.begun t tx htx hclosed).fewer (hB.append_right _).subperm

/-- Every operation keeps signatures covered. -/
theorem Attested.run (h : Attested n e) (hseq : op.Sequential e) (hlast : op.Lasting e) :
    Attested (n.after e op) (op.run e).2 := by
  cases hclient : op.client? with
  | some t => exact h.work hclient hlast
  | none =>
    have hs := h.serial.run hseq
    cases op with
    | begin timeout => exact h.begin hseq timeout
    | commit t => exact h.commit
    | abort t => exact h.abort
    | popUndo =>
      rw [Op.run, popUndo, UndoLog.pop?]
      cases hbatches : e.undo.batches with
      | nil => exact h
      | cons batch rest =>
        apply h.fewer
        rw [hbatches]
        exact List.sublist_cons_self _ _
    | close =>
      exact (h.fewer (List.nil_sublist _)).aside hs (.refl _) rfl fun _ _ => rfl
    | listen | unlisten | takeNotices => exact h.aside hs (.refl _) rfl fun _ _ => rfl
    | _ => cases hclient

theorem attested_create {config : Config} (h : create config .absent = .ok e) : Attested {} e := by
  obtain ⟨hstore, hbatches, -, htransactions⟩ := create_fields h
  apply Attested.of_resting (serial_create h)
  · rw [hstore]
    decide
  · intro t
    rw [isOpen, htransactions]
    rfl
  · rw [hstore, hbatches]
    exact vouches_empty

theorem Attested.runAll (h : Attested n e)
    (hops : Op.Along (fun e op => op.Sequential e ∧ op.Lasting e) e ops) :
    Attested (n.afterAll e ops) (Op.runAll e ops) := by
  induction ops generalizing n e with
  | nil => exact h
  | cons op rest ih => exact ih (h.run hops.1.1 hops.1.2) hops.2

/-- A valid signature is for the name at the last signing, unless an undelete found it taken. -/
theorem valid_signature_name {config : Config} {st : Statement} {a : Authority}
    (hcreate : create config .absent = .ok e)
    (hops : Op.Along (fun e op => op.Sequential e ∧ op.Lasting e) e ops)
    (hst : (Op.runAll e ops).store.get? x = some st)
    (ha : (Op.runAll e ops).store.authority? x = some a) (hvalid : a.valid = true) :
    ∃ s, (({} : Notary).afterAll e ops).now.get? x = some s ∧
      (st.identifier = s.name ∨ st.identifier = none ∧ s.lost = true) := by
  obtain ⟨s, hs, hcovers⟩ := ((attested_create hcreate).runAll hops).covers ha hvalid
  have hname : (Op.runAll e ops).store.nameOf x = st.identifier := by
    rw [nameOf, hst]
    rfl
  rw [hname] at hcovers
  exact ⟨s, hs, hcovers⟩

end Engine

namespace Op

variable {permits : Engine → Op → Prop} {e : Engine} {ops later : List Op}

theorem Succeed.append (h : Succeed permits e ops) (hlater : Succeed permits (runAll e ops) later) :
    Succeed permits e (ops ++ later) := by
  induction ops generalizing e with
  | nil => exact hlater
  | cons op rest ih => exact ⟨h.1, h.2.1, ih h.2.2 hlater⟩

theorem Succeed.along (h : Succeed permits e ops) :
    Along (fun e op => permits e op ∧ op.Lasting e) e ops := by
  induction ops generalizing e with
  | nil => trivial
  | cons op rest ih =>
    obtain ⟨hpermits, ⟨hok, hnext⟩, hrest⟩ := h
    refine ⟨⟨hpermits, fun hfail => ?_, hnext⟩, ih hrest⟩
    cases hok.symm.trans hfail

/-- Of two roots, one is given a name, signed for and removed. -/
def signedRemoved : List Op :=
  [.begin none, .createRoot ⟨1⟩ (.atom "A"), .createRoot ⟨1⟩ (.atom "B"),
    .identify ⟨1⟩ (.after 0) ⟨"n", rfl⟩ false, .createAuthority ⟨1⟩ (.after 0) "ann",
    .signAuthority ⟨1⟩ (.after 0), .removeRoot ⟨1⟩ (.after 0), .commit ⟨1⟩]

theorem succeed_signedRemoved :
    Succeed (fun e op => op.Sequential e) (.inMemory {}) signedRemoved := by
  decide +kernel

def renamedInVain : List Op :=
  [.begin none, .undelete ⟨2⟩, .commit ⟨2⟩, .begin none,
    .identify ⟨3⟩ (.after 0) ⟨"p", rfl⟩ true, .signAuthority ⟨3⟩ (.after 0), .abort ⟨3⟩]

theorem succeed_renamedInVain : Succeed (fun e op => op.Sequential e)
    (runAll (.inMemory {}) signedRemoved) renamedInVain := by
  decide +kernel

theorem renamedInVain_name :
    let e := runAll (.inMemory {}) (signedRemoved ++ renamedInVain)
    ∃ st a s, e.store.get? (.after 0) = some st ∧ e.store.authority? (.after 0) = some a ∧
      a.valid = true ∧
      (({} : Notary).afterAll (.inMemory {}) (signedRemoved ++ renamedInVain)).now.get? (.after 0) =
        some s ∧
      s.lost = false ∧ st.identifier = s.name := by
  intro e
  have hlive : (e.store.get? (.after 0)).isSome := by decide +kernel
  have hsigned : (e.store.authority? (.after 0)).map Authority.valid = some true := by
    decide +kernel
  have hkept : ((({} : Notary).afterAll (.inMemory {}) (signedRemoved ++ renamedInVain)).now.get?
      (.after 0)).map Seal.lost = some false := by decide +kernel
  obtain ⟨st, hst⟩ := Option.isSome_iff_exists.1 hlive
  obtain ⟨a, ha, hvalid⟩ := Option.map_eq_some_iff.1 hsigned
  have hstart : Engine.create {} .absent = .ok (.inMemory {}) := rfl
  obtain ⟨s, hs, hname⟩ := Engine.valid_signature_name hstart
    (succeed_signedRemoved.append succeed_renamedInVain).along hst ha hvalid
  rw [hs] at hkept
  have hlost : s.lost = false := Option.some.inj hkept
  refine ⟨st, a, s, hst, ha, hvalid, hs, hlost, hname.resolve_right fun h => ?_⟩
  cases hlost.symm.trans h.2

def nameTaken : List Op :=
  [.begin none, .identify ⟨2⟩ (.after 1) ⟨"n", rfl⟩ false, .undelete ⟨2⟩]

theorem valid_signature_nameTaken :
    let e := runAll (.inMemory {}) (signedRemoved ++ nameTaken)
    Along (fun e op => op.Sequential e ∧ op.Lasting e) (.inMemory {}) (signedRemoved ++ nameTaken) ∧
      (e.store.authority? (.after 0)).map Authority.valid = some true ∧
      (e.store.get? (.after 0)).map Statement.identifier = some none ∧
      ((({} : Notary).afterAll (.inMemory {}) (signedRemoved ++ nameTaken)).now.get?
        (.after 0)).map Seal.name = some (some ⟨"n", rfl⟩) := by
  have htaken : Succeed (fun e op => op.Sequential e) (runAll (.inMemory {}) signedRemoved)
      nameTaken := by decide +kernel
  exact ⟨(succeed_signedRemoved.append htaken).along, by decide +kernel⟩

end Op

end StatementGraph
