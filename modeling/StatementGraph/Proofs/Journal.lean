import StatementGraph.Engine.Session
import StatementGraph.Mutation.Construct
import StatementGraph.Proofs.Maintained
import StatementGraph.Proofs.Names
import StatementGraph.Proofs.Rederiving

namespace StatementGraph

def Transaction.before (tx : Transaction) (s : Store) : Records where
  statements x := (tx.statements.get? x).getD (s.get? x)
  authorities x := (tx.authorities.get? x).getD (s.authority? x)

/-- What a transaction will put back, and what it has removed or restored, is the same. -/
structure Transaction.Continues (tx : Transaction) (s : Store) (tx' : Transaction) (s' : Store) :
    Prop where
  id : tx'.id = tx.id
  closed : tx'.closed = tx.closed
  deletions : tx'.deletions = tx.deletions
  popped : tx'.popped = tx.popped
  before : tx'.before s' = tx.before s

namespace Transaction

variable {tx tx' tx'' : Transaction} {s s' s'' : Store} {x y : StatementId}

theorem Continues.refl (tx : Transaction) (s : Store) : tx.Continues s tx s :=
  ⟨rfl, rfl, rfl, rfl, rfl⟩

theorem Continues.trans (h : tx.Continues s tx' s') (h' : tx'.Continues s' tx'' s'') :
    tx.Continues s tx'' s'' :=
  ⟨h'.id.trans h.id, h'.closed.trans h.closed, h'.deletions.trans h.deletions,
    h'.popped.trans h.popped, h'.before.trans h.before⟩

theorem getD_keepStatement {prior : Option Statement} :
    ((tx.keepStatement x prior).statements.get? y).getD (s.get? y) =
      if y = x then (tx.statements.get? x).getD prior
      else (tx.statements.get? y).getD (s.get? y) := by
  rw [keepStatement]
  split
  case isTrue hin =>
    obtain ⟨v, hv⟩ := Table.contains_iff.1 hin
    split
    case isTrue he => rw [he, hv]; rfl
    case isFalse => rfl
  case isFalse hout =>
    have hnone : tx.statements.get? x = none :=
      Option.eq_none_iff_forall_ne_some.2 fun v hv => hout (Table.contains_iff.2 ⟨v, hv⟩)
    rw [Table.get?_insert]
    split
    case isTrue he => rw [hnone]; rfl
    case isFalse => rfl

theorem getD_keepAuthority {prior : Option Authority} :
    ((tx.keepAuthority x prior).authorities.get? y).getD (s.authority? y) =
      if y = x then (tx.authorities.get? x).getD prior
      else (tx.authorities.get? y).getD (s.authority? y) := by
  rw [keepAuthority]
  split
  case isTrue hin =>
    obtain ⟨v, hv⟩ := Table.contains_iff.1 hin
    split
    case isTrue he => rw [he, hv]; rfl
    case isFalse => rfl
  case isFalse hout =>
    have hnone : tx.authorities.get? x = none :=
      Option.eq_none_iff_forall_ne_some.2 fun v hv => hout (Table.contains_iff.2 ⟨v, hv⟩)
    rw [Table.get?_insert]
    split
    case isTrue he => rw [hnone]; rfl
    case isFalse => rfl

theorem keepStatement_fields (tx : Transaction) (x : StatementId) (prior : Option Statement) :
    (tx.keepStatement x prior).id = tx.id ∧ (tx.keepStatement x prior).closed = tx.closed ∧
      (tx.keepStatement x prior).deletions = tx.deletions ∧
      (tx.keepStatement x prior).popped = tx.popped ∧
      (tx.keepStatement x prior).authorities = tx.authorities := by
  rw [keepStatement]
  split <;> exact ⟨rfl, rfl, rfl, rfl, rfl⟩

theorem keepAuthority_fields (tx : Transaction) (x : StatementId) (prior : Option Authority) :
    (tx.keepAuthority x prior).id = tx.id ∧ (tx.keepAuthority x prior).closed = tx.closed ∧
      (tx.keepAuthority x prior).deletions = tx.deletions ∧
      (tx.keepAuthority x prior).popped = tx.popped ∧
      (tx.keepAuthority x prior).statements = tx.statements := by
  rw [keepAuthority]
  split <;> exact ⟨rfl, rfl, rfl, rfl, rfl⟩

theorem continues_keepStatement (hs : ∀ y, y ≠ x → s'.get? y = s.get? y)
    (ha : s'.authorities = s.authorities) :
    tx.Continues s (tx.keepStatement x (s.get? x)) s' := by
  obtain ⟨hid, hclosed, hdel, hpop, hauth⟩ := keepStatement_fields tx x (s.get? x)
  refine ⟨hid, hclosed, hdel, hpop, ?_⟩
  simp only [before, hauth, Store.authority?, ha, Records.mk.injEq, and_true]
  funext y
  rw [getD_keepStatement]
  split
  case isTrue he => rw [he]
  case isFalse he => rw [hs y he]

theorem continues_keepAuthority (hs : s'.statements = s.statements)
    (ha : ∀ y, y ≠ x → s'.authority? y = s.authority? y) :
    tx.Continues s (tx.keepAuthority x (s.authority? x)) s' := by
  obtain ⟨hid, hclosed, hdel, hpop, hst⟩ := keepAuthority_fields tx x (s.authority? x)
  refine ⟨hid, hclosed, hdel, hpop, ?_⟩
  simp only [before, hst, Store.get?, hs, Records.mk.injEq, true_and]
  funext y
  rw [getD_keepAuthority]
  split
  case isTrue he => rw [he]
  case isFalse he => rw [ha y he]

end Transaction

namespace Engine

/-- A change in a transaction: the others and the undo log are as they were. -/
structure Evolves (t : TransactionId) (e e' : Engine) : Prop where
  undo : e'.undo = e.undo
  nextTransaction : e'.nextTransaction = e.nextTransaction
  others : ∀ t', t' ≠ t → e'.transactions.get? t' = e.transactions.get? t'
  own : ∀ tx, e.transactions.get? t = some tx →
    ∃ tx', e'.transactions.get? t = some tx' ∧ tx.Continues e.store tx' e'.store
  named : e.store.Named → e'.store.Named

variable {t : TransactionId} {e e' e'' : Engine} {x : StatementId} {st : Statement}

theorem Evolves.refl (t : TransactionId) (e : Engine) : e.Evolves t e :=
  ⟨rfl, rfl, fun _ _ => rfl, fun tx h => ⟨tx, h, .refl tx e.store⟩, id⟩

theorem Evolves.trans (h : Evolves t e e') (h' : Evolves t e' e'') : Evolves t e e'' where
  undo := h'.undo.trans h.undo
  nextTransaction := h'.nextTransaction.trans h.nextTransaction
  others t' ht := (h'.others t' ht).trans (h.others t' ht)
  own tx htx := by
    obtain ⟨tx', htx', hc⟩ := h.own tx htx
    obtain ⟨tx'', htx'', hc'⟩ := h'.own tx' htx'
    exact ⟨tx'', htx'', hc.trans hc'⟩
  named hn := h'.named (h.named hn)

theorem Evolves.isOpen (h : Evolves t e e') (ho : e.isOpen t = true) : e'.isOpen t = true := by
  rw [Engine.isOpen, Option.any_eq_true] at ho
  obtain ⟨tx, htx, hopen⟩ := ho
  obtain ⟨tx', htx', hc⟩ := h.own tx htx
  rw [Engine.isOpen, htx', Option.any_some, hc.closed]
  exact hopen

theorem evolves_onTransaction {f : Transaction → Transaction} {s : Store}
    (h : ∀ tx, e.transactions.get? t = some tx → tx.Continues e.store (f tx) s)
    (hn : e.store.Named → s.Named) :
    Evolves t e { e.onTransaction t f with store := s } := by
  rw [onTransaction]
  cases htx : e.transactions.get? t with
  | none =>
    refine ⟨rfl, rfl, fun _ _ => rfl, fun tx htx' => ?_, hn⟩
    rw [htx] at htx'
    cases htx'
  | some tx =>
    refine ⟨rfl, rfl, fun t' ht => ?_, fun tx' htx' => ?_, hn⟩
    · exact Table.get?_insert.trans (if_neg ht)
    · rw [htx] at htx'
      cases htx'
      exact ⟨f tx, Table.get?_insert.trans (if_pos rfl), h tx htx⟩

theorem evolves_addHook {hook : Hook} : Evolves t e (e.onTransaction t (·.addHook hook)) := by
  have hsame : e.onTransaction t (·.addHook hook) =
      { e.onTransaction t (·.addHook hook) with store := e.store } := by
    rw [onTransaction]
    split <;> rfl
  rw [hsame]
  refine evolves_onTransaction (fun tx _ => ?_) id
  rw [Transaction.addHook]
  split <;> exact ⟨rfl, rfl, rfl, rfl, rfl⟩

theorem evolves_keepStatement {f : Store → Store}
    (hs : ∀ y, y ≠ x → (f e.store).get? y = e.store.get? y)
    (ha : (f e.store).authorities = e.store.authorities)
    (hn : e.store.Named → (f e.store).Named) :
    Evolves t e ((e.keepStatement t x).onStore f) := by
  rw [onStore, keepStatement, store_onTransaction]
  exact evolves_onTransaction (fun tx _ => Transaction.continues_keepStatement hs ha) hn

theorem evolves_put (hn : e.store.Named → (e.store.write st).Named) : Evolves t e (e.put t st) :=
  evolves_keepStatement (fun _ hy => Store.get?_write.trans (if_neg hy)) rfl hn

theorem evolves_remove : Evolves t e (e.remove t x) := by
  refine evolves_keepStatement (fun _ hy => Store.get?_erase.trans (if_neg hy)) ?_
    Store.Named.erase
  rw [Store.erase]
  split <;> rfl

theorem evolves_setProved {flag : Bool} : Evolves t e (e.setProved t x flag) :=
  evolves_keepStatement (fun _ hy => Store.get?_setProved.trans (if_neg hy))
    Store.reflagged_setProved.authorities Store.Named.setProved

theorem evolves_setAuthority {a : Option Authority} : Evolves t e (e.setAuthority t x a) := by
  rw [setAuthority, onStore, keepAuthority, store_onTransaction]
  exact evolves_onTransaction (fun tx _ => Transaction.continues_keepAuthority rfl
    fun _ hy => Table.get?_set.trans (if_neg hy)) fun hn => hn.of_eq rfl fun _ => rfl

/-- Whatever concerns neither the records nor transactions nor the undo log. -/
theorem evolves_of_eq (hundo : e'.undo = e.undo) (hnext : e'.nextTransaction = e.nextTransaction)
    (htx : e'.transactions = e.transactions) (hs : e'.store.statements = e.store.statements)
    (ha : e'.store.authorities = e.store.authorities) (hi : e'.store.index = e.store.index) :
    Evolves t e e' := by
  refine ⟨hundo, hnext, fun _ _ => by rw [htx], fun tx h => ⟨tx, by rw [htx]; exact h, ?_⟩,
    fun hn => hn.of_eq (by rw [hi]) fun x => by rw [Store.get?, hs]; rfl⟩
  refine ⟨rfl, rfl, rfl, rfl, ?_⟩
  simp only [Transaction.before, Store.get?, Store.authority?, hs, ha]

theorem evolves_foldl {α : Type} {f : Engine → α → Engine} {l : List α}
    (hf : ∀ e, ∀ a ∈ l, Evolves t e (f e a)) : Evolves t e (l.foldl f e) := by
  induction l generalizing e with
  | nil => exact .refl t e
  | cons a rest ih =>
    exact (hf e a List.mem_cons_self).trans (ih fun e b hb => hf e b (List.mem_cons_of_mem _ hb))

theorem evolves_notify {event : Event} : Evolves t e (e.notify t event) := by
  rw [notify]
  refine evolves_foldl fun e listener _ => ?_
  have hreport : Evolves t e (e.report (.event listener.label event)) :=
    evolves_of_eq rfl rfl rfl rfl rfl rfl
  rw [hear]
  split
  · exact hreport.trans evolves_addHook
  · exact hreport

theorem evolves_drain {mode : PropagationMode} (steps : Nat) (run : Propagation) :
    Evolves t run.engine (run.drain mode t steps).engine := by
  have hstep (run : Propagation) : Evolves t run.engine (run.step mode t).engine := by
    rw [Propagation.step]
    split
    · exact .refl t _
    · split
      · exact .refl t _
      · dsimp only
        split
        · exact .refl t _
        · dsimp only
          split
          · exact evolves_setProved.trans evolves_notify
          · exact evolves_setProved
  exact Propagation.drain_keeps (I := fun later => Evolves t run.engine later.engine) (.refl t _)
    (fun later _ _ h _ => h.trans (hstep later)) steps

theorem evolves_propagation {mode : PropagationMode} {seeds : List StatementId} :
    Evolves t e (e.propagation mode t seeds).engine :=
  evolves_drain _ { engine := e, queue := Walk.unseen [] seeds }

theorem evolves_rederive {seeds : List StatementId} : Evolves t e (e.rederive t seeds).2 := by
  have hclear (e : Engine) (x : StatementId) : Evolves t e (clearFlag t e x) := by
    rw [clearFlag]
    split
    · exact evolves_setProved
    · exact .refl t e
  have hannounce (before : Store) (e : Engine) (x : StatementId) :
      Evolves t e (announceChange t before e x) := by
    rw [announceChange]
    split
    · split
      · exact .refl t e
      · exact evolves_notify
    · exact .refl t e
  rw [rederive]
  exact ((evolves_foldl fun e x _ => hclear e x).trans evolves_propagation).trans
    (evolves_foldl fun e x _ => hannounce _ e x)

theorem evolves_addRecord (h : st.identifier = none) : Evolves t e (addRecord t e st) :=
  (evolves_put fun hn => hn.write_unnamed h).trans evolves_notify

theorem evolves_enter (h : st.identifier = none) : Evolves t e (e.enter t st).engine :=
  (evolves_addRecord h).trans evolves_propagation

theorem evolves_enterContext {assumptions : List Statement}
    (h : ∀ st' ∈ st :: assumptions, st'.identifier = none) :
    Evolves t e (e.enterContext t st assumptions).engine := by
  have hadded : Evolves t e ((st :: assumptions).foldl (addRecord t) e) :=
    evolves_foldl fun e st' hst' => evolves_addRecord (h st' hst')
  exact (hadded.trans evolves_propagation).trans evolves_propagation

end Engine

end StatementGraph
