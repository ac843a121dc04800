import StatementGraph.Proofs.Isolation
import StatementGraph.Proofs.Signatures

namespace StatementGraph

namespace Transaction

variable {tx : Transaction} {s s' : Store}

def untouched (tx : Transaction) : Bool :=
  tx.touched == 0 && tx.deletions.isEmpty && tx.popped.isEmpty

theorem batches_of_untouched (h : tx.untouched = true) : tx.deletions = [] ∧ tx.popped = [] := by
  simp only [untouched, Bool.and_eq_true, List.isEmpty_iff] at h
  exact ⟨h.1.2, h.2⟩

theorem before_of_untouched (h : tx.untouched = true) (s : Store) : tx.before s = s.records := by
  have hempty {α : Type} {table : Table StatementId α} (hsize : table.size = 0) (x : StatementId) :
      table.get? x = none := by
    rw [Table.size, List.length_eq_zero_iff] at hsize
    rw [Table.get?, hsize]
    rfl
  simp only [untouched, touched, Bool.and_eq_true, beq_iff_eq, Nat.add_eq_zero_iff] at h
  obtain ⟨⟨⟨hstatements, hauthorities⟩, -⟩, -⟩ := h
  simp only [before, Store.records, hempty hstatements, hempty hauthorities, Option.getD_none]

theorem before_congr (h : s'.records = s.records) : tx.before s' = tx.before s := by
  have hstatements : s'.get? = s.get? := congrArg Records.statements h
  have hauthorities : s'.authority? = s.authority? := congrArg Records.authorities h
  simp only [before, hstatements, hauthorities]

end Transaction

namespace Engine

open Store Ledger

variable {t : TransactionId} {e e' : Engine} {op : Op} {tx : Transaction}
  {A A' : Allocator} {r r' : Records} {B B' : List DeletionBatch}

/-- Of two open transactions one has written nothing. -/
def SoleWriter (e : Engine) : Prop := ∀ t t' tx tx', t ≠ t' →
  e.transactions.get? t = some tx → tx.closed = false →
  e.transactions.get? t' = some tx' → tx'.closed = false →
  tx.untouched = true ∨ tx'.untouched = true

instance decidableSoleWriter : Decidable e.SoleWriter :=
  decidable_of_iff (∀ p ∈ e.transactions.entries, ∀ q ∈ e.transactions.entries, p.1 ≠ q.1 →
      p.2.closed = false → q.2.closed = false → p.2.untouched = true ∨ q.2.untouched = true) (by
    constructor
    · intro h t t' tx tx' hne htx hopen htx' hopen'
      exact h (t, tx) (Table.mem_entries.2 htx) (t', tx') (Table.mem_entries.2 htx') hne hopen
        hopen'
    · intro h p hp q hq hne hopen hopen'
      exact h p.1 q.1 p.2 q.2 hne (Table.mem_entries.1 hp) hopen (Table.mem_entries.1 hq) hopen')

theorem Serial.soleWriter (h : e.Serial) : e.SoleWriter := by
  intro t t' tx tx' hne htx hopen htx' hopen'
  exact absurd (h.alone t t' (isOpen_iff.2 ⟨tx, htx, hopen⟩) (isOpen_iff.2 ⟨tx', htx', hopen'⟩)) hne

/-- Records whose statements are in contexts, with batches that can come back. -/
structure Sheltered (A : Allocator) (r : Records) (B : List DeletionBatch) : Prop where
  vouched : ∃ l : Ledger, l.Vouches A r B
  owned : r.graph.Owned

theorem Sheltered.fewer (h : Sheltered A r B) (hB : B'.Subperm B) : Sheltered A r B' :=
  ⟨h.vouched.imp fun _ hl => hl.fewer hB, h.owned⟩

theorem Sheltered.counter (h : Sheltered A r B) (hA : ∀ x, A.Past x → A'.Past x) :
    Sheltered A' r B :=
  ⟨h.vouched.imp fun _ hl => hl.counter hA, h.owned⟩

theorem Sheltered.congr (h : Sheltered A r B) (hgraph : r'.graph = r.graph)
    (hnames : ∀ x, r'.nameOf x = r.nameOf x) (hauthorities : r'.authorities = r.authorities) :
    Sheltered A r' B :=
  ⟨h.vouched.imp fun _ hl => hl.congr hgraph hnames hauthorities, hgraph ▸ h.owned⟩

theorem Sheltered.reflagged {s s' : Store} (h : Sheltered A s.records B) (hr : s.Reflagged s') :
    Sheltered A s'.records B := by
  refine ⟨h.vouched.imp fun _ hl => hl.reflagged hr, ?_⟩
  change s'.graph.Owned
  rw [hr.graph]
  exact h.owned

/-- What a transaction has to leave standing if it goes on, and if it is aborted. -/
structure Supports (e : Engine) (tx : Transaction) : Prop where
  now : Sheltered e.store.allocator e.store.records (e.undo.batches ++ tx.deletions)
  begun : Sheltered e.store.allocator (tx.before e.store) (e.undo.batches ++ tx.popped)

theorem supports_of_untouched (h : tx.untouched = true)
    (hrest : Sheltered e.store.allocator e.store.records e.undo.batches) : Supports e tx := by
  obtain ⟨hdeletions, hpopped⟩ := Transaction.batches_of_untouched h
  constructor
  · rw [hdeletions, List.append_nil]
    exact hrest
  · rw [Transaction.before_of_untouched h, hpopped, List.append_nil]
    exact hrest

/-- What holds while at most one open transaction has written anything. -/
structure Lodged (e : Engine) : Prop where
  orderly : e.Orderly
  counter : e.store.allocator.next ≠ 0
  sole : e.SoleWriter
  resting : Sheltered e.store.allocator e.store.records e.undo.batches
  busy : ∀ t tx, e.transactions.get? t = some tx → tx.closed = false → Supports e tx

theorem Lodged.housed (h : e.Lodged) : e.store.graph.Housed := by
  obtain ⟨l, hl⟩ := h.resting.vouched
  exact hl.paired.housed h.resting.owned

theorem Lodged.turn (h : e.Lodged) (htx : e.transactions.get? t = some tx)
    (hopen : tx.closed = false) (ho : e'.Orderly) (hnext : e'.store.allocator.next ≠ 0)
    (hs : e'.SoleWriter) (hpast : ∀ x, e.store.allocator.Past x → e'.store.allocator.Past x)
    (hothers : ∀ t', t' ≠ t → e'.transactions.get? t' = e.transactions.get? t')
    (hrest : Sheltered e'.store.allocator e'.store.records e'.undo.batches)
    (hown : ∀ tx', e'.transactions.get? t = some tx' → tx'.closed = false → Supports e' tx')
    (hstill : tx.untouched = true →
      (∀ tx', e'.transactions.get? t = some tx' → tx'.closed = false → tx'.untouched = true) →
      e'.store.records = e.store.records ∧ e'.undo.batches.Subperm e.undo.batches) :
    e'.Lodged := by
  refine ⟨ho, hnext, hs, hrest, fun t₁ tx₁ htx₁ hopen₁ => ?_⟩
  by_cases heq : t₁ = t
  · subst heq
    exact hown tx₁ htx₁ hopen₁
  cases htouched : tx₁.untouched with
  | true => exact supports_of_untouched htouched hrest
  | false =>
    -- this other transaction has written, so the one whose turn it was has not, then or now
    have hold := htx₁
    rw [hothers t₁ heq] at hold
    have hbefore := (h.sole t₁ t tx₁ tx heq hold hopen₁ htx hopen).resolve_left (by simp [htouched])
    obtain ⟨hrecords, hbatches⟩ := hstill hbefore fun tx' htx' hopen' =>
      (hs t₁ t tx₁ tx' heq htx₁ hopen₁ htx' hopen').resolve_left (by simp [htouched])
    obtain ⟨hnow, hbegun⟩ := h.busy t₁ tx₁ hold hopen₁
    constructor
    · rw [hrecords]
      exact (hnow.counter hpast).fewer ((List.subperm_append_right _).2 hbatches)
    · rw [Transaction.before_congr hrecords]
      exact (hbegun.counter hpast).fewer ((List.subperm_append_right _).2 hbatches)

theorem Lodged.own (h : e.Lodged) (hs : (op.run e).2.SoleWriter) (hclient : op.client? = some t)
    (hopen : e.isOpen t = true) (hlast : op.Lasting e) : (op.run e).2.Lodged := by
  obtain ⟨tx, htx, hclosed⟩ := isOpen_iff.1 hopen
  obtain ⟨⟨⟨l, hl⟩, howned⟩, hbegun⟩ := h.busy t tx htx hclosed
  have hvouched : Vouched ({ now := l } : Notary).now t e := by
    rw [Vouched, deletionsIn, readIn_eq htx]
    exact hl
  obtain ⟨hnow, hpast, hkept⟩ := endures_run h.orderly h.counter hopen hclient hlast.1 hvouched
  obtain ⟨tx', htx', hclosed', hbefore, hperm⟩ := begun_run h.orderly hclient htx
  have hnow' : Sheltered (op.run e).2.store.allocator (op.run e).2.store.records
      ((op.run e).2.undo.batches ++ tx'.deletions) := by
    rw [Vouched, deletionsIn, readIn_eq htx'] at hnow
    exact ⟨⟨_, hnow⟩, hkept howned⟩
  refine h.turn htx hclosed (h.orderly.run op) hlast.2 hs hpast
    (fun t' ht' => others_client h.orderly hclient ht')
    (hnow'.fewer (List.sublist_append_left _ _).subperm) (fun tx₁ htx₁ _ => ?_)
    fun hfirst hlater => ?_
  · cases htx'.symm.trans htx₁
    refine ⟨hnow', ?_⟩
    rw [hbefore]
    exact (hbegun.counter hpast).fewer hperm.subperm
  · have hfirst' := hlater tx' htx' (hclosed'.trans hclosed)
    rw [Transaction.before_of_untouched hfirst, Transaction.before_of_untouched hfirst'] at hbefore
    rw [(Transaction.batches_of_untouched hfirst).2, (Transaction.batches_of_untouched hfirst').2,
      List.append_nil, List.append_nil] at hperm
    exact ⟨hbefore, hperm.subperm⟩

theorem Lodged.aside (h : e.Lodged) (ho : e'.Orderly) (hs : e'.SoleWriter)
    (hr : e.store.Reflagged e'.store) (hbatches : e'.undo.batches.Sublist e.undo.batches)
    (hsame : ∀ t tx, e'.transactions.get? t = some tx → tx.closed = false →
      e.transactions.get? t = some tx ∨ tx.untouched = true) : e'.Lodged := by
  have hrest : Sheltered e'.store.allocator e'.store.records e'.undo.batches := by
    rw [hr.allocator]
    exact (h.resting.reflagged hr).fewer hbatches.subperm
  refine ⟨ho, hr.allocator ▸ h.counter, hs, hrest, fun t tx htx hopen => ?_⟩
  rcases hsame t tx htx hopen with hold | hnew
  · obtain ⟨hnow, hbegun⟩ := h.busy t tx hold hopen
    rw [← hr.allocator] at hnow hbegun
    constructor
    · exact (hnow.reflagged hr).fewer (hbatches.append_right _).subperm
    · exact (hbegun.congr (tx.graph_before hr) (tx.nameOf_before hr)
        (tx.authorities_before hr)).fewer (hbatches.append_right _).subperm
  · exact supports_of_untouched hnew hrest

theorem Lodged.refused (h : e.Lodged) (hs : (op.run e).2.SoleWriter)
    (hclient : op.client? = some t) (hopen : e.isOpen t = false) : (op.run e).2.Lodged := by
  obtain ⟨hchanges, hflags⟩ := Op.changes_closed hclient hopen
  refine h.aside (h.orderly.run op) hs hflags ?_ fun t' tx htx hclosed => Or.inl ?_
  · rw [hchanges.proceeds.undo]
  · exact hchanges.proceeds.open_others hopen t' tx htx hclosed

theorem Lodged.commit (h : e.Lodged) (hs : (Op.run e (.commit t)).2.SoleWriter) :
    (Op.run e (.commit t)).2.Lodged := by
  rw [Op.run] at hs ⊢
  rcases commit_cases e t with ⟨-, hrun⟩ | ⟨tx, htx, hclosed, hrun⟩ <;> rw [hrun] at hs ⊢
  · exact h
  · obtain ⟨hstore, hundo, htransactions, -⟩ := commitWith_fields e tx
    obtain ⟨hothers, hown⟩ := get?_emptied h.orderly htx htransactions
    refine h.turn htx hclosed (h.orderly.committed htx) (hstore ▸ h.counter) hs
      (fun _ hx => hstore ▸ hx) hothers ?_ (fun tx' htx' hopen' => ?_) fun hfirst _ => ?_
    · rw [hstore, hundo]
      exact (h.busy t tx htx hclosed).now.fewer (e.undo.subperm_pushAll tx.deletions)
    · rw [hown] at htx'
      cases htx'
      cases hopen'
    · rw [hstore, hundo, (Transaction.batches_of_untouched hfirst).1]
      exact ⟨rfl, .refl _⟩

theorem Lodged.abort (h : e.Lodged) (hs : (e.abort t).SoleWriter) : (e.abort t).Lodged := by
  rcases abort_cases e t with ⟨-, hrun⟩ | ⟨tx, htx, hclosed, hrun⟩ <;> rw [hrun] at hs ⊢
  · exact h
  · obtain ⟨hstore, hundo, htransactions, -⟩ := abortWith_fields e tx
    obtain ⟨hothers, hown⟩ := get?_emptied h.orderly htx htransactions
    obtain ⟨hrecords, -, hallocator⟩ := records_rollback
      ((h.orderly.journal t tx htx).before h.orderly.filed.indexed.keyed) h.orderly.filed.indexed
    rw [← hstore] at hrecords hallocator
    refine h.turn htx hclosed (h.orderly.aborted htx) (hallocator ▸ h.counter) hs
      (fun _ hx => hallocator ▸ hx) hothers ?_ (fun tx' htx' hopen' => ?_) fun hfirst _ => ?_
    · rw [hallocator, hrecords, hundo]
      refine (h.busy t tx htx hclosed).begun.fewer ((e.undo.subperm_pushAll _).trans ?_)
      exact (tx.popped.reverse_perm.append_left _).subperm
    · rw [hown] at htx'
      cases htx'
      cases hopen'
    · rw [hrecords, hundo, (Transaction.batches_of_untouched hfirst).2,
        Transaction.before_of_untouched hfirst]
      exact ⟨rfl, .refl _⟩

/-- Every operation keeps statements in their contexts. -/
theorem Lodged.run (h : e.Lodged) (hs : (op.run e).2.SoleWriter) (hlast : op.Lasting e) :
    (op.run e).2.Lodged := by
  have ho := h.orderly.run op
  cases hclient : op.client? with
  | some t =>
    cases hopen : e.isOpen t with
    | true => exact h.own hs hclient hopen hlast
    | false => exact h.refused hs hclient hopen
  | none =>
    cases op with
    | begin timeout =>
      refine h.aside ho hs (.refl _) (.refl _) fun t tx htx _ => ?_
      have htx := get?_begin.symm.trans htx
      split at htx
      case isTrue =>
        cases htx
        exact Or.inr rfl
      case isFalse => exact Or.inl htx
    | commit t => exact h.commit hs
    | abort t => exact h.abort hs
    | popUndo =>
      rw [Op.run, Engine.popUndo, UndoLog.pop?] at ho hs ⊢
      cases hbatches : e.undo.batches with
      | nil => exact h
      | cons batch rest =>
        rw [hbatches] at ho hs
        refine h.aside ho hs (.refl _) ?_ fun _ _ htx _ => Or.inl htx
        rw [hbatches]
        exact List.sublist_cons_self batch rest
    | listen | unlisten | takeNotices =>
      exact h.aside ho hs (.refl _) (.refl _) fun _ _ htx _ => Or.inl htx
    | close => exact h.aside ho hs (.refl _) (List.nil_sublist _) fun _ _ htx _ => Or.inl htx
    | _ => cases hclient

theorem lodged_create {config : Config} (h : create config .absent = .ok e) : e.Lodged := by
  obtain ⟨hstore, hbatches, -, htransactions⟩ := create_fields h
  have hnone (t : TransactionId) : e.transactions.get? t = none := by
    rw [htransactions]
    rfl
  refine ⟨orderly_create h, ?_, (serial_create h).soleWriter, ⟨⟨{}, ?_⟩, ?_⟩, fun t tx htx => ?_⟩
  · rw [hstore]
    decide
  · rw [hstore, hbatches]
    exact vouches_empty
  · rw [hstore]
    intro x c o hx
    cases hx
  · rw [hnone] at htx
    cases htx

end Engine

theorem Reached.lodged {e : Engine} (h : Reached (fun e op => (op.run e).2.SoleWriter) e) :
    e.Lodged := by
  induction h with
  | start h => exact Engine.lodged_create h
  | step _ hsole hlasting ih => exact ih.run hsole hlasting

end StatementGraph
