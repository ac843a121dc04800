import Mathlib.Logic.Relation
import StatementGraph.Proofs.Filing
import StatementGraph.Proofs.Operation
import StatementGraph.Proofs.Recovery

namespace StatementGraph

def Statement.Apart (st : Statement) : Prop := st.id ∉ st.assumptions

namespace Engine

open Store

/-- One change in a transaction. A name that is written is not found elsewhere. -/
inductive Change (t : TransactionId) (e : Engine) : Engine → Prop where
  | write (st : Statement) (hapart : st.Apart) (hfree : ∀ name y, st.identifier = some name →
      e.store.lookupName st.owner name = some y → y = st.id) : Change t e (e.put t st)
  | erase (x : StatementId) : Change t e (e.remove t x)
  | flag (x : StatementId) (proved : Bool) : Change t e (e.setProved t x proved)
  | authority (x : StatementId) (a : Option Authority) (ha : ∀ b, a = some b → b.statement = x) :
      Change t e (e.setAuthority t x a)
  | lock (x : StatementId) {locks : LockTable} (hopen : e.isOpen t = true)
      (h : e.locks.acquire x t = .ok locks) :
      Change t e ({ e with locks }.onTransaction t fun tx => { tx with held := tx.held.insert x })
  | counter (a : Allocator) : Change t e (e.onStore fun s => { s with allocator := a })
  | hook (hook : Hook) : Change t e (e.onTransaction t (·.addHook hook))
  | report (notice : Notice) : Change t e (e.report notice)
  | record (batch : DeletionBatch) (hbatch : ∀ d ∈ batch, d.statement.Apart) :
      Change t e (e.onTransaction t (·.addDeletions batch))

def Changes (t : TransactionId) : Engine → Engine → Prop := Relation.ReflTransGen (Change t)

variable {t : TransactionId} {e e' e'' : Engine} {x : StatementId} {st : Statement} {α β : Type}

theorem Changes.refl (t : TransactionId) (e : Engine) : Changes t e e := Relation.ReflTransGen.refl

theorem Changes.trans (h : Changes t e e') (h' : Changes t e' e'') : Changes t e e'' :=
  Relation.ReflTransGen.trans h h'

theorem Change.changes (h : Change t e e') : Changes t e e' := Relation.ReflTransGen.single h

end Engine

namespace Transaction

variable {tx tx' tx'' : Transaction} {s s' s'' : Store} {x y : StatementId}

/-- What a journal keeps stands under its own id, and what it keeps is in order. -/
structure Keyed (tx : Transaction) : Prop where
  statements : ∀ x st, tx.statements.get? x = some (some st) → st.id = x
  apart : ∀ x st, tx.statements.get? x = some (some st) → st.Apart
  authorities : ∀ x a, tx.authorities.get? x = some (some a) → a.statement = x
  deletions : ∀ batch ∈ tx.deletions, ∀ d ∈ batch, d.statement.Apart
  popped : ∀ batch ∈ tx.popped, ∀ d ∈ batch, d.statement.Apart

theorem get?_keepStatement {prior : Option Statement} :
    (tx.keepStatement x prior).statements.get? y =
      if y = x then some ((tx.statements.get? x).getD prior) else tx.statements.get? y := by
  rw [keepStatement]
  split
  case isTrue hin =>
    obtain ⟨kept, hkept⟩ := Table.contains_iff.1 hin
    split
    case isTrue heq => rw [heq, hkept]; rfl
    case isFalse => rfl
  case isFalse hout =>
    have hnone : tx.statements.get? x = none :=
      Option.eq_none_iff_forall_ne_some.2 fun kept hkept =>
        hout (Table.contains_iff.2 ⟨kept, hkept⟩)
    rw [Table.get?_insert, hnone]
    rfl

theorem get?_keepAuthority {prior : Option Authority} :
    (tx.keepAuthority x prior).authorities.get? y =
      if y = x then some ((tx.authorities.get? x).getD prior) else tx.authorities.get? y := by
  rw [keepAuthority]
  split
  case isTrue hin =>
    obtain ⟨kept, hkept⟩ := Table.contains_iff.1 hin
    split
    case isTrue heq => rw [heq, hkept]; rfl
    case isFalse => rfl
  case isFalse hout =>
    have hnone : tx.authorities.get? x = none :=
      Option.eq_none_iff_forall_ne_some.2 fun kept hkept =>
        hout (Table.contains_iff.2 ⟨kept, hkept⟩)
    rw [Table.get?_insert, hnone]
    rfl

/-- An entry of a journal is an old one, or what was there at the first touch. -/
theorem get?_keepStatement_cases {prior kept : Option Statement}
    (h : (tx.keepStatement x prior).statements.get? y = some kept) :
    tx.statements.get? y = some kept ∨ y = x ∧ kept = prior := by
  rw [get?_keepStatement] at h
  split at h
  case isTrue heq =>
    cases hold : tx.statements.get? x with
    | none =>
      rw [hold, Option.getD_none, Option.some.injEq] at h
      exact Or.inr ⟨heq, h.symm⟩
    | some old =>
      rw [hold, Option.getD_some] at h
      rw [heq, hold]
      exact Or.inl h
  case isFalse => exact Or.inl h

theorem Keyed.keepStatement {prior : Option Statement} (h : tx.Keyed)
    (hprior : ∀ st, prior = some st → st.id = x ∧ st.Apart) : (tx.keepStatement x prior).Keyed := by
  obtain ⟨-, -, hdeletions, hpopped, hauthorities⟩ := keepStatement_fields tx x prior
  refine ⟨fun y st hy => ?_, fun y st hy => ?_, ?_, ?_, ?_⟩
  · rcases get?_keepStatement_cases hy with hy | ⟨rfl, hst⟩
    · exact h.statements y st hy
    · exact (hprior st hst.symm).1
  · rcases get?_keepStatement_cases hy with hy | ⟨rfl, hst⟩
    · exact h.apart y st hy
    · exact (hprior st hst.symm).2
  · rw [hauthorities]
    exact h.authorities
  · rw [hdeletions]
    exact h.deletions
  · rw [hpopped]
    exact h.popped

theorem Keyed.keepAuthority {prior : Option Authority} (h : tx.Keyed)
    (hprior : ∀ a, prior = some a → a.statement = x) : (tx.keepAuthority x prior).Keyed := by
  obtain ⟨-, -, hdeletions, hpopped, hstatements⟩ := keepAuthority_fields tx x prior
  refine ⟨?_, ?_, fun y a hy => ?_, ?_, ?_⟩
  · rw [hstatements]
    exact h.statements
  · rw [hstatements]
    exact h.apart
  · rw [get?_keepAuthority] at hy
    split at hy
    case isTrue heq =>
      rw [heq]
      cases hkept : tx.authorities.get? x with
      | none =>
        rw [hkept, Option.some.injEq, Option.getD_none] at hy
        exact hprior a hy
      | some kept =>
        rw [hkept, Option.some.injEq, Option.getD_some] at hy
        exact h.authorities x a (hkept.trans (congrArg some hy))
    case isFalse => exact h.authorities y a hy
  · rw [hdeletions]
    exact h.deletions
  · rw [hpopped]
    exact h.popped

theorem Keyed.addDeletions {batch : DeletionBatch} (h : tx.Keyed)
    (hbatch : ∀ d ∈ batch, d.statement.Apart) : (tx.addDeletions batch).Keyed := by
  rw [Transaction.addDeletions]
  split
  · exact h
  · refine { h with deletions := fun batch' hbatch' => ?_ }
    rcases List.mem_append.1 hbatch' with hold | hnew
    · exact h.deletions batch' hold
    · cases List.mem_singleton.1 hnew
      exact hbatch

theorem Keyed.addPopped {batch : DeletionBatch} (h : tx.Keyed)
    (hbatch : ∀ d ∈ batch, d.statement.Apart) : (tx.addPopped batch).Keyed := by
  refine { h with popped := fun batch' hbatch' => ?_ }
  rcases List.mem_append.1 hbatch' with hold | hnew
  · exact h.popped batch' hold
  · cases List.mem_singleton.1 hnew
    exact hbatch

theorem Keyed.addHook {hook : Hook} (h : tx.Keyed) : (tx.addHook hook).Keyed := by
  rw [Transaction.addHook]
  split
  · exact h
  · exact { h with }

/-- What a transaction will put back is the same; its journal and its locks at most grow. -/
structure Advances (tx : Transaction) (s : Store) (tx' : Transaction) (s' : Store) : Prop where
  id : tx'.id = tx.id
  closed : tx'.closed = tx.closed
  popped : tx'.popped = tx.popped
  before : tx'.before s' = tx.before s
  journal : ∀ x prior, tx.statements.get? x = some prior → tx'.statements.get? x = some prior
  authorities : ∀ x prior, tx.authorities.get? x = some prior →
    tx'.authorities.get? x = some prior
  held : ∀ x, x ∈ tx.held → x ∈ tx'.held

theorem Advances.refl (tx : Transaction) (s : Store) : tx.Advances s tx s :=
  ⟨rfl, rfl, rfl, rfl, fun _ _ hx => hx, fun _ _ hx => hx, fun _ hx => hx⟩

theorem Advances.trans (h : tx.Advances s tx' s') (h' : tx'.Advances s' tx'' s'') :
    tx.Advances s tx'' s'' where
  id := h'.id.trans h.id
  closed := h'.closed.trans h.closed
  popped := h'.popped.trans h.popped
  before := h'.before.trans h.before
  journal x prior hx := h'.journal x prior (h.journal x prior hx)
  authorities x prior hx := h'.authorities x prior (h.authorities x prior hx)
  held x hx := h'.held x (h.held x hx)

theorem advances_keepStatement (hs : ∀ y, y ≠ x → s'.get? y = s.get? y)
    (ha : s'.authorities = s.authorities) :
    tx.Advances s (tx.keepStatement x (s.get? x)) s' := by
  have hc : tx.Continues s (tx.keepStatement x (s.get? x)) s' := continues_keepStatement hs ha
  refine ⟨hc.id, hc.closed, hc.popped, hc.before, fun y prior hy => ?_, fun y prior hy => ?_,
    fun y hy => ?_⟩
  · rw [get?_keepStatement]
    split
    case isTrue heq =>
      rw [← heq, hy]
      rfl
    case isFalse => exact hy
  · rw [(keepStatement_fields tx x (s.get? x)).2.2.2.2]
    exact hy
  · rw [Transaction.keepStatement]
    split <;> exact hy

theorem advances_keepAuthority (hs : s'.statements = s.statements)
    (ha : ∀ y, y ≠ x → s'.authority? y = s.authority? y) :
    tx.Advances s (tx.keepAuthority x (s.authority? x)) s' := by
  have hc : tx.Continues s (tx.keepAuthority x (s.authority? x)) s' :=
    continues_keepAuthority hs ha
  refine ⟨hc.id, hc.closed, hc.popped, hc.before, fun y prior hy => ?_, fun y prior hy => ?_,
    fun y hy => ?_⟩
  · rw [(keepAuthority_fields tx x (s.authority? x)).2.2.2.2]
    exact hy
  · rw [get?_keepAuthority]
    split
    case isTrue heq =>
      rw [← heq, hy]
      rfl
    case isFalse => exact hy
  · rw [Transaction.keepAuthority]
    split <;> exact hy

end Transaction

namespace Engine

open Store

variable {t t' : TransactionId} {e e' e'' : Engine} {x : StatementId} {tx : Transaction}

/-- Changes in one transaction, as the others and the undo log see them. -/
structure Proceeds (t : TransactionId) (e e' : Engine) : Prop where
  undo : e'.undo = e.undo
  nextTransaction : e'.nextTransaction = e.nextTransaction
  others : ∀ t', t' ≠ t → e'.transactions.get? t' = e.transactions.get? t'
  own : ∀ tx, e.transactions.get? t = some tx →
    ∃ tx', e'.transactions.get? t = some tx' ∧ tx.Advances e.store tx' e'.store
  unknown : e.transactions.get? t = none → e'.transactions.get? t = none
  locks : ∀ x, e'.locks.owner? x = e.locks.owner? x ∨ e.locks.owner? x = none ∧
    e'.locks.owner? x = some t ∧ ∃ tx', e'.transactions.get? t = some tx' ∧ x ∈ tx'.held
  named : e.store.Named → e'.store.Named

theorem Proceeds.refl (t : TransactionId) (e : Engine) : Proceeds t e e :=
  ⟨rfl, rfl, fun _ _ => rfl, fun tx htx => ⟨tx, htx, .refl tx e.store⟩, id, fun _ => Or.inl rfl, id⟩

theorem Proceeds.trans (h : Proceeds t e e') (h' : Proceeds t e' e'') : Proceeds t e e'' where
  undo := h'.undo.trans h.undo
  nextTransaction := h'.nextTransaction.trans h.nextTransaction
  others t' ht := (h'.others t' ht).trans (h.others t' ht)
  own tx htx := by
    obtain ⟨tx', htx', ha⟩ := h.own tx htx
    obtain ⟨tx'', htx'', ha'⟩ := h'.own tx' htx'
    exact ⟨tx'', htx'', ha.trans ha'⟩
  unknown ht := h'.unknown (h.unknown ht)
  locks x := by
    rcases h'.locks x with hsame | ⟨hfree, hnew⟩
    · rcases h.locks x with hsame' | ⟨hfree, hown, tx', htx', hx⟩
      · exact Or.inl (hsame.trans hsame')
      · obtain ⟨tx'', htx'', ha⟩ := h'.own tx' htx'
        exact Or.inr ⟨hfree, hsame.trans hown, tx'', htx'', ha.held x hx⟩
    · rcases h.locks x with hsame | ⟨-, hown, -⟩
      · exact Or.inr ⟨hsame.symm.trans hfree, hnew⟩
      · cases hfree.symm.trans hown
  named hn := h'.named (h.named hn)

theorem locks_onTransaction {f : Transaction → Transaction} :
    (e.onTransaction t f).locks = e.locks := by
  rw [onTransaction]
  split <;> rfl

theorem proceeds_onTransaction {f : Transaction → Transaction} {s : Store}
    (hown : ∀ tx, e.transactions.get? t = some tx → tx.Advances e.store (f tx) s)
    (hn : e.store.Named → s.Named) :
    Proceeds t e { e.onTransaction t f with store := s } := by
  obtain ⟨hundo, hnext⟩ := onTransaction_fields (e := e) (t := t) (f := f)
  refine ⟨hundo, hnext, fun t' ht => ?_, fun tx htx => ⟨f tx, ?_, hown tx htx⟩, fun hnone => ?_,
    fun x => Or.inl ?_, hn⟩
  · exact get?_onTransaction.trans (if_neg ht)
  · refine get?_onTransaction.trans ((if_pos rfl).trans ?_)
    rw [htx]
    rfl
  · refine get?_onTransaction.trans ((if_pos rfl).trans ?_)
    rw [hnone]
    rfl
  · exact congrArg (·.owner? x) locks_onTransaction

theorem proceeds_keepStatement {f : Store → Store}
    (hs : ∀ y, y ≠ x → (f e.store).get? y = e.store.get? y)
    (ha : (f e.store).authorities = e.store.authorities)
    (hn : e.store.Named → (f e.store).Named) :
    Proceeds t e ((e.keepStatement t x).onStore f) := by
  rw [onStore, keepStatement, store_onTransaction]
  exact proceeds_onTransaction (fun tx _ => Transaction.advances_keepStatement hs ha) hn

theorem proceeds_note {f : Transaction → Transaction}
    (hf : ∀ tx : Transaction, ∀ s, tx.Advances s (f tx) s) :
    Proceeds t e (e.onTransaction t f) := by
  have hsame : e.onTransaction t f = { e.onTransaction t f with store := e.store } := by
    rw [onTransaction]
    split <;> rfl
  rw [hsame]
  exact proceeds_onTransaction (fun tx _ => hf tx e.store) id

theorem authorities_erase {s : Store} : (s.erase x).authorities = s.authorities := by
  rw [Store.erase]
  split <;> rfl

theorem owner?_acquire {l l' : LockTable} (h : l.acquire x t = .ok l') (y : StatementId) :
    l'.owner? y = l.owner? y ∨ y = x ∧ l.owner? y = none ∧ l'.owner? y = some t := by
  rw [LockTable.acquire] at h
  split at h
  case h_1 hfree =>
    cases h
    by_cases hy : y = x
    · subst hy
      exact Or.inr ⟨rfl, hfree, Table.get?_insert.trans (if_pos rfl)⟩
    · exact Or.inl (Table.get?_insert.trans (if_neg hy))
  case h_2 =>
    split at h
    · cases h
      exact Or.inl rfl
    · cases h

theorem Change.proceeds (h : Change t e e') : Proceeds t e e' := by
  cases h with
  | write st hapart hfree =>
    refine proceeds_keepStatement (fun y hy => get?_write.trans (if_neg hy)) rfl fun hn => ?_
    cases hname : st.identifier with
    | none => exact hn.write_unnamed hname
    | some name => exact hn.write_named hname fun y => hfree name y hname
  | erase x =>
    exact proceeds_keepStatement (fun y hy => get?_erase.trans (if_neg hy)) authorities_erase
      Named.erase
  | flag x proved =>
    exact proceeds_keepStatement (fun y hy => get?_setProved.trans (if_neg hy))
      reflagged_setProved.authorities Named.setProved
  | authority x a ha =>
    rw [setAuthority, onStore, keepAuthority, store_onTransaction]
    exact proceeds_onTransaction (fun tx _ => Transaction.advances_keepAuthority rfl
      fun y hy => Table.get?_set.trans (if_neg hy)) fun hn => hn.of_eq rfl fun _ => rfl
  | lock x hopen hacquire =>
    rename_i locks
    obtain ⟨tx, htx, -⟩ := isOpen_iff.1 hopen
    let f : Transaction → Transaction := fun tx => { tx with held := tx.held.insert x }
    have hget : ({ e with locks }.onTransaction t f).transactions.get? t = some (f tx) := by
      rw [get?_onTransaction, if_pos rfl]
      exact congrArg (Option.map f) htx
    have hnote : Proceeds t { e with locks } ({ e with locks }.onTransaction t f) := by
      apply proceeds_note
      intro tx s
      exact ⟨rfl, rfl, rfl, rfl, fun _ _ hy => hy, fun _ _ hy => hy,
        fun y hy => IdSet.mem_insert.2 (Or.inr hy)⟩
    refine ⟨hnote.undo, hnote.nextTransaction, hnote.others, hnote.own, hnote.unknown,
      fun y => ?_, hnote.named⟩
    rw [locks_onTransaction]
    rcases owner?_acquire hacquire y with hsame | ⟨rfl, hfree, hnew⟩
    · exact Or.inl hsame
    · exact Or.inr ⟨hfree, hnew, f tx, hget, IdSet.mem_insert.2 (Or.inl rfl)⟩
  | counter a =>
    refine ⟨rfl, rfl, fun _ _ => rfl, fun tx htx => ⟨tx, htx, ?_⟩, id, fun _ => Or.inl rfl,
      fun hn => hn.of_eq rfl fun _ => rfl⟩
    exact ⟨rfl, rfl, rfl, rfl, fun _ _ hx => hx, fun _ _ hx => hx, fun _ hx => hx⟩
  | hook hook =>
    apply proceeds_note
    intro tx s
    rw [Transaction.addHook]
    split <;> exact ⟨rfl, rfl, rfl, rfl, fun _ _ hx => hx, fun _ _ hx => hx, fun _ hx => hx⟩
  | report notice =>
    exact ⟨rfl, rfl, fun _ _ => rfl, fun tx htx => ⟨tx, htx, .refl tx e.store⟩, id,
      fun _ => Or.inl rfl, id⟩
  | record batch hbatch =>
    apply proceeds_note
    intro tx s
    rw [Transaction.addDeletions]
    split <;> exact ⟨rfl, rfl, rfl, rfl, fun _ _ hx => hx, fun _ _ hx => hx, fun _ hx => hx⟩

theorem Changes.proceeds (h : Changes t e e') : Proceeds t e e' := by
  induction h with
  | refl => exact .refl t e
  | tail _ hstep ih => exact ih.trans hstep.proceeds

/-- What holds in every run. -/
structure Orderly (e : Engine) : Prop where
  filed : e.store.Filed
  apart : ∀ x st, e.store.get? x = some st → st.Apart
  authority : ∀ x a, e.store.authority? x = some a → a.statement = x
  keyed : ∀ t tx, e.transactions.get? t = some tx → tx.id = t ∧ t.raw < e.nextTransaction
  journal : ∀ t tx, e.transactions.get? t = some tx → tx.Keyed
  owners : ∀ x t, e.locks.owner? x = some t → t.raw < e.nextTransaction
  deep : e.undo.depth ≠ 0
  log : e.undo.batches.length ≤ e.undo.depth
  batches : ∀ batch ∈ e.undo.batches, ∀ d ∈ batch, d.statement.Apart

/-- Changes in a transaction are in order if the store and the journal are. -/
theorem Orderly.of_proceeds (h : e.Orderly) (hp : Proceeds t e e') (hfiled : e'.store.Filed)
    (hapart : ∀ x st, e'.store.get? x = some st → st.Apart)
    (hauthority : ∀ x a, e'.store.authority? x = some a → a.statement = x)
    (hjournal : ∀ tx, e'.transactions.get? t = some tx → tx.Keyed) : e'.Orderly := by
  have hkeyed (t' : TransactionId) (tx' : Transaction)
      (htx' : e'.transactions.get? t' = some tx') : tx'.id = t' ∧ t'.raw < e'.nextTransaction := by
    rw [hp.nextTransaction]
    by_cases ht : t' = t
    · subst ht
      cases htx : e.transactions.get? t' with
      | none => cases htx'.symm.trans (hp.unknown htx)
      | some tx =>
        obtain ⟨tx₁, htx₁, ha⟩ := hp.own tx htx
        cases htx'.symm.trans htx₁
        exact ⟨ha.id.trans (h.keyed t' tx htx).1, (h.keyed t' tx htx).2⟩
    · exact h.keyed t' tx' (hp.others t' ht ▸ htx')
  refine ⟨hfiled, hapart, hauthority, hkeyed, fun t' tx' htx' => ?_, fun x t' hx => ?_,
    hp.undo ▸ h.deep,
    hp.undo ▸ h.log, hp.undo ▸ h.batches⟩
  · by_cases ht : t' = t
    · exact hjournal tx' (ht ▸ htx')
    · exact h.journal t' tx' (hp.others t' ht ▸ htx')
  · rcases hp.locks x with hsame | ⟨-, hown, tx', htx', -⟩
    · rw [hp.nextTransaction]
      exact h.owners x t' (hsame ▸ hx)
    · cases hx.symm.trans hown
      exact (hkeyed t tx' htx').2

theorem Orderly.note {f : Transaction → Transaction} (h : e.Orderly)
    (hf : ∀ tx : Transaction, tx.Keyed → (f tx).id = tx.id ∧ (f tx).Keyed) :
    (e.onTransaction t f).Orderly := by
  have hstore : (e.onTransaction t f).store = e.store := store_onTransaction
  obtain ⟨hundo, hnext⟩ := onTransaction_fields (e := e) (t := t) (f := f)
  have hknown (t' : TransactionId) (tx' : Transaction)
      (htx' : (e.onTransaction t f).transactions.get? t' = some tx') :
      (tx'.id = t' ∧ t'.raw < e.nextTransaction) ∧ tx'.Keyed := by
    rw [get?_onTransaction] at htx'
    split at htx'
    case isTrue heq =>
      obtain ⟨tx, htx, rfl⟩ := Option.map_eq_some_iff.1 htx'
      obtain ⟨hid, hkeyed⟩ := hf tx (h.journal t tx htx)
      rw [heq, hid]
      exact ⟨h.keyed t tx htx, hkeyed⟩
    case isFalse => exact ⟨h.keyed t' tx' htx', h.journal t' tx' htx'⟩
  refine ⟨hstore ▸ h.filed, hstore ▸ h.apart, hstore ▸ h.authority, fun t' tx' htx' => ?_,
    fun t' tx' htx' => (hknown t' tx' htx').2, ?_, hundo ▸ h.deep, hundo ▸ h.log, hundo ▸ h.batches⟩
  · rw [hnext]
    exact (hknown t' tx' htx').1
  · rw [locks_onTransaction, hnext]
    exact h.owners

theorem Orderly.keepStatement {f : Store → Store} (h : e.Orderly)
    (hp : Proceeds t e ((e.keepStatement t x).onStore f)) (hfiled : (f e.store).Filed)
    (hapart : ∀ y st, (f e.store).get? y = some st → st.Apart)
    (ha : (f e.store).authorities = e.store.authorities) :
    ((e.keepStatement t x).onStore f).Orderly := by
  have hstore : ((e.keepStatement t x).onStore f).store = f e.store := by
    rw [onStore, Engine.keepStatement, store_onTransaction]
  refine h.of_proceeds hp (hstore ▸ hfiled) (hstore ▸ hapart) (fun y a hy => ?_) fun tx htx => ?_
  · rw [hstore, Store.authority?, ha] at hy
    exact h.authority y a hy
  · change (e.keepStatement t x).transactions.get? t = some tx at htx
    rw [Engine.keepStatement, get?_onTransaction, if_pos rfl] at htx
    obtain ⟨tx₀, htx₀, rfl⟩ := Option.map_eq_some_iff.1 htx
    exact (h.journal t tx₀ htx₀).keepStatement fun st hst =>
      ⟨h.filed.indexed.keyed x st hst, h.apart x st hst⟩

theorem Orderly.change (h : e.Orderly) (hc : Change t e e') : e'.Orderly := by
  have hp := hc.proceeds
  cases hc with
  | write st hapart hfree =>
    refine h.keepStatement hp h.filed.write (fun y st' hy => ?_) rfl
    rw [get?_write] at hy
    split at hy
    · cases hy
      exact hapart
    · exact h.apart y st' hy
  | erase x =>
    refine h.keepStatement hp h.filed.erase (fun y st hy => ?_) authorities_erase
    rw [get?_erase] at hy
    split at hy
    · cases hy
    · exact h.apart y st hy
  | flag x proved =>
    refine h.keepStatement hp h.filed.setProved (fun y st hy => ?_) reflagged_setProved.authorities
    rw [get?_setProved] at hy
    split at hy
    · obtain ⟨old, hold, rfl⟩ := Option.map_eq_some_iff.1 hy
      exact h.apart x old hold
    · exact h.apart y st hy
  | authority x a ha =>
    have hstore : (e.setAuthority t x a).store = e.store.setAuthority x a := store_setAuthority
    refine h.of_proceeds hp (hstore ▸ h.filed.of_eq rfl rfl) (fun y st hy => ?_)
      (fun y b hy => ?_) fun tx htx => ?_
    · rw [hstore] at hy
      exact h.apart y st hy
    · rw [hstore, Store.authority?_setAuthority] at hy
      split at hy
      case isTrue heq => exact (ha b hy).trans heq.symm
      case isFalse => exact h.authority y b hy
    · change (e.keepAuthority t x).transactions.get? t = some tx at htx
      rw [keepAuthority, get?_onTransaction, if_pos rfl] at htx
      obtain ⟨tx₀, htx₀, rfl⟩ := Option.map_eq_some_iff.1 htx
      exact (h.journal t tx₀ htx₀).keepAuthority fun a ha => h.authority x a ha
  | lock x hopen hacquire =>
    apply h.of_proceeds hp
    · rw [store_onTransaction]
      exact h.filed
    · rw [store_onTransaction]
      exact h.apart
    · rw [store_onTransaction]
      exact h.authority
    · intro tx htx
      rw [get?_onTransaction, if_pos rfl] at htx
      obtain ⟨tx₀, htx₀, rfl⟩ := Option.map_eq_some_iff.1 htx
      exact { h.journal t tx₀ htx₀ with }
  | counter a => exact h.of_proceeds hp (h.filed.of_eq rfl rfl) h.apart h.authority (h.journal t)
  | hook hook =>
    apply h.note
    intro tx hk
    refine ⟨?_, hk.addHook⟩
    rw [Transaction.addHook]
    split <;> rfl
  | report notice => exact h.of_proceeds hp h.filed h.apart h.authority (h.journal t)
  | record batch hbatch =>
    apply h.note
    intro tx hk
    refine ⟨?_, hk.addDeletions hbatch⟩
    rw [Transaction.addDeletions]
    split <;> rfl

theorem Orderly.changes (h : e.Orderly) (hc : Changes t e e') : e'.Orderly := by
  induction hc with
  | refl => exact h
  | tail _ hstep ih => exact ih.change hstep

end Engine

end StatementGraph
