import StatementGraph.Proofs.BatchOrder
import StatementGraph.Proofs.Operation
import StatementGraph.Proofs.Recovery

namespace StatementGraph

/-- The newest batches survive when more are entered, as long as the depth has room for them. -/
theorem UndoLog.prefix_pushAll (log : UndoLog) (l : List DeletionBatch) {bs : List DeletionBatch}
    (h : bs <+: l.reverse ++ log.batches) (hdepth : bs.length ≤ log.depth) :
    bs <+: (log.pushAll l).batches := by
  induction l generalizing log with
  | nil => exact h
  | cons batch rest ih =>
    apply ih (log.push batch) _ hdepth
    rw [List.reverse_cons, List.append_assoc, List.singleton_append] at h
    rw [List.prefix_iff_eq_take] at h ⊢
    rw [push, List.take_append, List.take_take, Nat.min_eq_left (by omega), ← List.take_append]
    exact h

namespace Store

variable {s s' mid prior : Store} {H : Graph} {batch : DeletionBatch} {bs : List DeletionBatch}

/-- Restoring batches one after the other leads from one store to the records of another. -/
def LeadsBack (H : Graph) (prior : Store) : Store → List DeletionBatch → Prop
  | s, [] => ∀ x, s.get? x = prior.get? x
  | s, batch :: rest => ∃ mid : Store, mid.Maintained H ∧ mid.Named ∧ s.Lacks mid batch ∧
    Restorable s.graph.Live batch.reverse ∧ LeadsBack H prior mid rest

theorem LeadsBack.congr (h : LeadsBack H prior s bs) (hget : ∀ x, s'.get? x = s.get? x) :
    LeadsBack H prior s' bs := by
  have hgraph : s'.graph = s.graph := by
    funext x
    rw [graph, graph, hget]
  cases bs with
  | nil => exact fun x => (hget x).trans (h x)
  | cons batch rest =>
    obtain ⟨mid, hm, hn, hlacks, hrestorable, hback⟩ := h
    refine ⟨mid, hm, hn, ⟨hgraph ▸ hlacks.left, fun x hx => ?_, hlacks.records, ?_⟩, ?_, hback⟩
    · rw [nameOf, hget]
      exact hlacks.names x (hgraph ▸ hx)
    · rw [hgraph]
      exact hlacks.swept
    · rw [hgraph]
      exact hrestorable

end Store

namespace Engine

open Store

variable {t : TransactionId} {H : Graph} {e e₀ e' : Engine} {prior : Store} {tx : Transaction}
  {batch : DeletionBatch} {bs : List DeletionBatch}

/-- A deletion that went through: its batch is the newest of the open transaction. -/
structure Takes (t : TransactionId) (H : Graph) (e e' : Engine) (batch : DeletionBatch) : Prop where
  session : Session .exact H e'
  allocator : e'.store.allocator = e.store.allocator
  lacks : e'.store.Lacks e.store batch
  undo : e'.undo = e.undo
  deletions : ∃ tx tx', e.transactions.get? t = some tx ∧ tx.closed = false ∧
    e'.transactions.get? t = some tx' ∧ tx'.closed = false ∧
    tx'.deletions = tx.deletions ++ [batch]

theorem takes_of_removes (h : Session .exact H e) (ht : e.isOpen t = true)
    (hs : Sound .exact t H e₀) (hg : Grown t H e H e₀) (hstore : e₀.store = e.store)
    (hr : Removes t H e₀ e' batch) (hne : batch ≠ []) : Takes t H e e' batch where
  session := (h.grown ht hs hg).removed hs.isOpen hr
  allocator := hr.allocator.trans (congrArg Store.allocator hstore)
  lacks := by
    rw [← hstore]
    refine ⟨hr.left, fun x hx => ?_, hr.records, fun x => ⟨?_, ?_⟩⟩
    · obtain ⟨c, hc⟩ := hx
      exact hr.names x c hc
    · rintro ⟨c, hc⟩
      exact (hr.swept x c hc).imp_left fun hc => ⟨c, hc⟩
    · rintro (⟨c, hc⟩ | hx)
      · exact ⟨c, hr.left x c hc⟩
      · exact hr.dug x hx
  undo := by
    obtain ⟨e₁, he, rfl⟩ := hr.recorded
    rw [onTransaction_fields.1, he.undo, hg.evolves.undo]
  deletions := by
    obtain ⟨e₁, he, rfl⟩ := hr.recorded
    obtain ⟨tx, htx, hopen⟩ := isOpen_iff.1 ht
    obtain ⟨tx₁, htx₁, hc⟩ := (hg.evolves.trans he).own tx htx
    refine ⟨tx, tx₁.addDeletions batch, htx, hopen, ?_, ?_⟩
    · rw [get?_onTransaction, if_pos rfl, htx₁]
      rfl
    · rw [Transaction.addDeletions, if_neg (by simpa using hne)]
      exact ⟨hc.closed.trans hopen, by rw [hc.deletions]⟩

/-- The batches that undeletes will restore, once the open transaction is committed. -/
structure Awaits (H : Graph) (bs : List DeletionBatch) (e : Engine) : Prop where
  session : Session .exact H e
  counter : e.store.allocator.next ≠ 0
  busy : ∀ t tx, e.transactions.get? t = some tx → tx.closed = false →
    bs <+: tx.deletions.reverse ++ e.undo.batches
  idle : (∀ t, e.isOpen t = false) → bs <+: e.undo.batches

theorem awaits_nil (h : Session .exact H e) (hc : e.store.allocator.next ≠ 0) : Awaits H [] e :=
  ⟨h, hc, fun _ _ _ _ => List.nil_prefix, fun _ => List.nil_prefix⟩

/-- The open transaction has deleted nothing. -/
def Quiet (e : Engine) : Prop :=
  ∀ t tx, e.transactions.get? t = some tx → tx.closed = false → tx.deletions = []

theorem Awaits.begin (h : Awaits H bs e) (hidle : ∀ t, e.isOpen t = false)
    (timeout : Option Nat) :
    Awaits H bs (e.begin timeout).2 ∧ (e.begin timeout).2.Quiet := by
  have hquiet : (e.begin timeout).2.Quiet := by
    intro t tx htx hopen
    obtain ⟨-, rfl⟩ := open_begin hidle htx hopen
    rfl
  refine ⟨⟨h.session.begun hidle timeout, h.counter, ?_, fun _ => h.idle hidle⟩, hquiet⟩
  intro t tx htx hopen
  rw [hquiet t tx htx hopen]
  exact h.idle hidle

theorem Session.isOpen_commitWith {D : Discipline} (h : Session D H e)
    (htx : e.transactions.get? t = some tx) (hopen : tx.closed = false) (t' : TransactionId) :
    (e.commitWith tx).isOpen t' = false := by
  have htransactions := (commitWith_fields e tx).2.2.1
  rw [(h.keyed t tx htx).1] at htransactions
  exact isOpen_emptied h.alone (isOpen_iff.2 ⟨tx, htx, hopen⟩) htransactions t'

theorem Awaits.commit (h : Awaits H bs e) (htx : e.transactions.get? t = some tx)
    (hopen : tx.closed = false) (hdepth : bs.length ≤ e.undo.depth ∨ tx.deletions = []) :
    Awaits H bs (e.commitWith tx) ∧ (e.commitWith tx).Quiet := by
  obtain ⟨hstore, hundo, -, -⟩ := commitWith_fields e tx
  have hclosed := h.session.isOpen_commitWith htx hopen
  have hnone (t' : TransactionId) (tx' : Transaction)
      (htx' : (e.commitWith tx).transactions.get? t' = some tx') : tx'.closed ≠ false := by
    intro hopen'
    have hnow := isOpen_iff.2 ⟨tx', htx', hopen'⟩
    rw [hclosed t'] at hnow
    cases hnow
  have hlog : bs <+: (e.commitWith tx).undo.batches := by
    rw [hundo]
    have hnow := h.busy t tx htx hopen
    rcases hdepth with hdepth | hempty
    · exact e.undo.prefix_pushAll tx.deletions hnow hdepth
    · rw [hempty] at hnow ⊢
      exact hnow
  refine ⟨⟨h.session.committed htx hopen, hstore ▸ h.counter, ?_, fun _ => hlog⟩,
    fun t' tx' htx' hopen' => absurd hopen' (hnone t' tx' htx')⟩
  intro t' tx' htx' hopen'
  exact absurd hopen' (hnone t' tx' htx')

theorem Awaits.take (h : Awaits H bs e) (ht : Takes t H e e' batch) :
    Awaits H (batch :: bs) e' := by
  obtain ⟨tx, tx', htx, hopen, htx', hopen', hdeletions⟩ := ht.deletions
  have hopened : e'.isOpen t = true := isOpen_iff.2 ⟨tx', htx', hopen'⟩
  refine ⟨ht.session, ht.allocator ▸ h.counter, ?_, fun hidle => ?_⟩
  · intro t₁ tx₁ htx₁ hopen₁
    cases ht.session.alone t₁ t (isOpen_iff.2 ⟨tx₁, htx₁, hopen₁⟩) hopened
    cases htx'.symm.trans htx₁
    rw [hdeletions, List.reverse_append, List.reverse_singleton, ht.undo]
    exact List.cons_prefix_cons.2 ⟨rfl, h.busy t tx htx hopen⟩
  · rw [hidle t] at hopened
    cases hopened

/-- An undelete takes the newest batch off. -/
theorem Awaits.undelete (h : Awaits H (batch :: bs) e) (hquiet : e.Quiet)
    (hopen : e.isOpen t = true) (hm : prior.Maintained H) (hn : prior.Named)
    (hlacks : e.store.Lacks prior batch) :
    ∃ report e', (Engine.undelete t).perform e = (.ok report, e') ∧
      (report.failed = [] ↔ Restorable e.store.graph.Live batch.reverse) ∧
      (report.failed = [] → report.unnamed = [] ∧ ∀ x, e'.store.get? x = prior.get? x) ∧
      Awaits H bs e' ∧ e'.Quiet := by
  obtain ⟨tx, htx, hclosed⟩ := isOpen_iff.1 hopen
  have hprefix := h.busy t tx htx hclosed
  rw [hquiet t tx htx hclosed] at hprefix
  obtain ⟨rest, hrest⟩ := hprefix
  have hrest : e.undo.batches = batch :: (bs ++ rest) := hrest.symm
  have hs := h.session.sound hopen
  have hburied := (h.session.busy t tx htx hclosed).deletions
  obtain ⟨report, e', hrun, hfailed, hsame⟩ := undelete_spec hs h.counter h.session.named hburied
    hrest hm hn hlacks
  have hsession : Session .exact H e' := by
    have hnext := (h.session.undelete (t := t) h.counter).2
    rw [Action.effect, hrun] at hnext
    exact hnext
  refine ⟨report, e', hrun, hfailed, hsame, ?_⟩
  rcases undelete_cases hs h.counter hburied hrun with
    ⟨-, hnil, -⟩ | ⟨-, b, undo, e₁, -, hundo, -, hcounter, he, -, rfl⟩
  · cases hnil.symm.trans hrest
  · obtain ⟨tx₁, htx₁, hc⟩ := he.own tx htx
    have hbatches : (e₁.onTransaction t (·.addPopped b)).undo.batches = bs ++ rest := by
      rw [onTransaction_fields.1, he.undo]
      exact (List.cons.inj (hundo.symm.trans hrest)).2
    have hnow : (e₁.onTransaction t (·.addPopped b)).transactions.get? t =
        some (tx₁.addPopped b) := by
      rw [get?_onTransaction, if_pos rfl, htx₁]
      rfl
    have hquiet' : (e₁.onTransaction t (·.addPopped b)).Quiet := by
      intro t' tx' htx' hopen'
      cases hsession.alone t' t (isOpen_iff.2 ⟨tx', htx', hopen'⟩)
        (isOpen_iff.2 ⟨_, hnow, hc.closed.trans hclosed⟩)
      cases hnow.symm.trans htx'
      exact hc.deletions.trans (hquiet t tx htx hclosed)
    refine ⟨⟨hsession, by rw [store_onTransaction]; exact hcounter, ?_,
      fun _ => hbatches ▸ List.prefix_append bs rest⟩, hquiet'⟩
    intro t' tx' htx' hopen'
    rw [hquiet' t' tx' htx' hopen', hbatches]
    exact List.prefix_append bs rest

/-- The batches that await restoration lead back to an earlier store. -/
structure Retraces (H : Graph) (prior : Store) (bs : List DeletionBatch) (e : Engine) : Prop
    extends Awaits H bs e where
  back : LeadsBack H prior e.store bs

/-- An undelete takes one step back and reports neither a failure nor a lost name. -/
theorem Retraces.undelete (h : Retraces H prior (batch :: bs) e) (hquiet : e.Quiet)
    (hopen : e.isOpen t = true) :
    ∃ report e', (Engine.undelete t).perform e = (.ok report, e') ∧ report.failed = [] ∧
      report.unnamed = [] ∧ Retraces H prior bs e' ∧ e'.Quiet := by
  obtain ⟨mid, hm, hn, hlacks, hrestorable, hback⟩ := h.back
  obtain ⟨report, e', hrun, hfailed, hsame, hawaits, hquiet'⟩ :=
    h.toAwaits.undelete hquiet hopen hm hn hlacks
  obtain ⟨hunnamed, hget⟩ := hsame (hfailed.2 hrestorable)
  exact ⟨report, e', hrun, hfailed.2 hrestorable, hunnamed, ⟨hawaits, hback.congr hget⟩, hquiet'⟩

/-- What a removal that goes through comes to: a batch that is not empty and can be restored. -/
def Settles (t : TransactionId) (H : Graph) (e : Engine) (w : Removal) : Prop :=
  Removes t H e (w.record t) w.batch ∧ w.Undoable ∧ w.batch ≠ []

theorem Removes.batch_ne_nil {x : StatementId} (h : Removes t H e e' batch)
    (hx : e.store.graph.Live x) (hgone : ¬e'.store.graph.Live x) : batch ≠ [] := by
  rintro rfl
  obtain ⟨c, hc⟩ := hx
  rcases h.swept x c hc with hc | hmem
  · exact hgone ⟨c, hc⟩
  · cases hmem

variable {context root x : StatementId} {ids removed : List StatementId} {w : Removal}

theorem Clears.batch_ne_nil (hs : Sound .exact t H e) (h : Clears t context ids e w)
    (hids : ids ≠ []) : w.batch ≠ [] := by
  obtain ⟨x, hx⟩ := List.exists_mem_of_ne_nil ids hids
  obtain ⟨st, hst, -⟩ := h.removable.plain x hx
  have hremovable : e.store.Removable (e.store.dependencySorted ids false).reverse :=
    h.removable.congr fun _ => mem_reverse_dependencySorted
  obtain ⟨hcut, -, hleft⟩ := cut_removeTrees hs hremovable
  apply (h.removes hs).batch_ne_nil (live_iff.2 ⟨st, hst⟩)
  rw [Removal.record, store_onTransaction, h.work, graph_recheck hcut.indexed, live_iff]
  rintro ⟨st', hst'⟩
  exact ((hleft x st').1 hst').2 x (mem_reverse_dependencySorted.2 hx) .refl

theorem Clears.settles (hs : Sound .exact t H e) (h : Clears t context [x] e w) :
    Settles t H e w := by
  refine ⟨h.removes hs, (h.undoable_iff hs).2 ?_, h.batch_ne_nil hs (List.cons_ne_nil x [])⟩
  have hm := hs.maintained
  have harranged : Walk.Arranged _ (e.store.dependencySorted [x] false) :=
    arranged_dependencySorted hs.lawful hm.sub hm.closed.owner
  -- there is no other tree that could be out of order
  refine harranged.nodup.imp_of_mem fun {a b} ha hb hne => ?_
  rw [mem_dependencySorted, List.mem_singleton] at ha hb
  exact absurd (ha.trans hb.symm) hne

theorem Uproots.settles (hs : Sound .exact t H e) (h : Uproots t root e w) :
    Settles t H e w := by
  refine ⟨h.removes hs, h.undoable hs, ?_⟩
  obtain ⟨st, hst, -⟩ := h.removable.plain root (List.mem_singleton_self root)
  apply (h.removes hs).batch_ne_nil (live_iff.2 ⟨st, hst⟩)
  obtain ⟨-, -, hleft⟩ := cut_removeTrees hs h.removable
  rw [Removal.record, store_onTransaction, h.work, live_iff]
  rintro ⟨st', hst'⟩
  exact ((hleft root st').1 hst').2 root (List.mem_singleton_self root) .refl

theorem Cascades.settles (hs : Sound .exact t H e) (h : Cascades t e w) : Settles t H e w := by
  refine ⟨h.removes hs, h.undoable hs, ?_⟩
  obtain ⟨target, st, hst, hplain, hwork⟩ := id h
  obtain ⟨visited, hmem, hdone⟩ := cascading_start hs hst hplain
  apply (h.removes hs).batch_ne_nil (live_iff.2 ⟨st, hst⟩)
  rw [Removal.record, store_onTransaction, hwork, graph_recheck hdone.cut.indexed, live_iff]
  rintro ⟨st', hst'⟩
  cases hdone.pending target hmem st' hst'

theorem Retraces.drop {m : Action (List StatementId)} {P : Engine → Removal → Prop}
    (h : Retraces H prior bs e) (ht : e.isOpen t = true) (hdrops : Drops .exact t H e m P)
    (hP : ∀ e₀ w, Sound .exact t H e₀ → P e₀ w → Settles t H e₀ w)
    (hrun : m.perform e = (.ok removed, e')) :
    ∃ batch, Retraces H prior (batch :: bs) e' ∧ e'.undo = e.undo := by
  obtain ⟨e₀, w, hs, hg, hstore, hw, -, rfl⟩ := hdrops.1 removed e' hrun
  obtain ⟨hremoves, hundoable, hne⟩ := hP e₀ w hs hw
  have htakes := takes_of_removes h.session ht hs hg hstore hremoves hne
  refine ⟨w.batch, ⟨h.toAwaits.take htakes, e.store, h.session.maintained, h.session.named,
    htakes.lacks, ?_, h.back⟩, htakes.undo⟩
  rw [Removal.record, store_onTransaction]
  exact hundoable

theorem effect_eq_ok {α : Type} {m : Action α} (h : (m.effect e).1 = .ok ()) :
    ∃ a, m.perform e = (.ok a, (m.effect e).2) := by
  rw [Action.effect] at h ⊢
  cases hrun : m.perform e with
  | mk r e' =>
    rw [hrun] at h
    cases r with
    | ok a => exact ⟨a, rfl⟩
    | error f => cases h

theorem effect_closed {α : Type} {k : Unit → Action α} (t : TransactionId)
    (ht : e.isOpen t = false) : ((ensureOpen t >>= k).effect e).1 ≠ .ok () := by
  intro hok
  obtain ⟨a, hrun⟩ := effect_eq_ok hok
  rw [perform_closed ht] at hrun
  cases hrun

theorem Retraces.act {m : Action (List StatementId)} {P : Engine → Removal → Prop}
    (h : Retraces H prior bs e) (hclosed : e.isOpen t = false → (m.effect e).1 ≠ .ok ())
    (hdrops : Sound .exact t H e → Drops .exact t H e m P)
    (hP : ∀ e₀ w, Sound .exact t H e₀ → P e₀ w → Settles t H e₀ w)
    (hok : (m.effect e).1 = .ok ()) :
    ∃ batch, Retraces H prior (batch :: bs) (m.effect e).2 ∧ (m.effect e).2.undo = e.undo := by
  obtain ⟨removed, hrun⟩ := effect_eq_ok hok
  cases ht : e.isOpen t with
  | false => exact absurd hok (hclosed ht)
  | true => exact h.drop ht (hdrops (h.session.sound ht)) hP hrun

theorem commit_eq_ok (h : ((commit t).effect e).1 = .ok ()) :
    ∃ tx, e.transactions.get? t = some tx ∧ tx.closed = false ∧
      ((commit t).effect e).2 = e.commitWith tx := by
  rcases commit_cases e t with ⟨-, hrun⟩ | ⟨tx, htx, hclosed, hrun⟩
  · rw [hrun] at h
    cases h
  · exact ⟨tx, htx, hclosed, congrArg Prod.snd hrun⟩

end Engine

namespace Op

open Engine

/-- The removal of a statement, of a statement with all that depends on it, or of a root. -/
def isDeletion : Op → Bool
  | removeStatements _ _ [_] => true
  | removeCascade _ _ _ => true
  | removeRoot _ _ => true
  | _ => false

def isUndelete : Op → Bool
  | undelete _ => true
  | _ => false

def isBracket : Op → Bool
  | begin _ => true
  | commit _ => true
  | _ => false

/-- A transaction is begun while none is open, and an open one is asked to commit or to undelete. -/
def Fits (e : Engine) : Op → Prop
  | begin _ => ∀ t, e.isOpen t = false
  | commit t => e.isOpen t = true
  | undelete t => e.isOpen t = true
  | _ => True

/-- Every operation of a list has a property when its turn comes. -/
def Along (P : Engine → Op → Prop) (e : Engine) : List Op → Prop
  | [] => True
  | op :: ops => P e op ∧ Along P (op.run e).2 ops

instance decidableAlong {P : Engine → Op → Prop} [∀ e op, Decidable (P e op)] :
    (e : Engine) → (ops : List Op) → Decidable (Along P e ops)
  | _, [] => isTrue trivial
  | e, op :: ops =>
    have : Decidable (Along P (op.run e).2 ops) := decidableAlong (op.run e).2 ops
    inferInstanceAs (Decidable (P e op ∧ Along P (op.run e).2 ops))

def BringsBack (e : Engine) (op : Op) : Prop :=
  ∀ t, op = .undelete t → ∃ report, ((Engine.undelete t).perform e).1 = .ok report ∧
    report.failed = [] ∧ report.unnamed = []

variable {H : Graph} {prior : Store} {e : Engine} {bs : List DeletionBatch} {op : Op}
  {ops : List Op}

theorem retraces_deletion (h : Retraces H prior bs e) (hop : op.isDeletion = true)
    (hok : (op.run e).1 = .ok ()) :
    ∃ batch, Retraces H prior (batch :: bs) (op.run e).2 ∧ (op.run e).2.undo = e.undo := by
  cases op with
  | removeStatements t context ids =>
    obtain ⟨x, rfl⟩ : ∃ x, ids = [x] := by
      clear hok
      rcases ids with _ | ⟨x, _ | ⟨y, rest⟩⟩
      · cases hop
      · exact ⟨x, rfl⟩
      · cases hop
    rw [run] at hok ⊢
    exact h.act (effect_closed t) drops_removeStatements (fun _ _ hs hw => hw.settles hs) hok
  | removeCascade t context x =>
    rw [run] at hok ⊢
    exact h.act (effect_closed t) drops_removeCascade (fun _ _ hs hw => hw.settles hs) hok
  | removeRoot t root =>
    rw [run] at hok ⊢
    exact h.act (effect_closed t) drops_removeRoot (fun _ _ hs hw => hw.settles hs) hok
  | _ => cases hop

theorem retraces_bracket (h : Retraces H prior bs e) (hop : op.isBracket = true)
    (hseq : op.Sequential e) (hok : (op.run e).1 = .ok ())
    (hdepth : bs.length ≤ e.undo.depth ∨ e.Quiet) :
    Retraces H prior bs (op.run e).2 ∧ (op.run e).2.Quiet ∧
      (op.run e).2.undo.depth = e.undo.depth := by
  cases op with
  | begin timeout =>
    obtain ⟨hawaits, hquiet⟩ := h.toAwaits.begin hseq timeout
    exact ⟨⟨hawaits, h.back⟩, hquiet, rfl⟩
  | commit t =>
    obtain ⟨tx, htx, hopen, heq⟩ := commit_eq_ok hok
    obtain ⟨hstore, hundo, -⟩ := commitWith_fields e tx
    obtain ⟨hawaits, hquiet⟩ :=
      h.toAwaits.commit htx hopen (hdepth.imp_right fun hq => hq t tx htx hopen)
    rw [run, heq]
    refine ⟨⟨hawaits, hstore ▸ h.back⟩, hquiet, ?_⟩
    rw [hundo, UndoLog.depth_pushAll]
  | _ => cases hop

/-- Deletions, in as many transactions as one likes, leave a batch each. -/
theorem retraces_deletions (h : Retraces H prior bs e)
    (hops : ∀ op ∈ ops, op.isDeletion = true ∨ op.isBracket = true)
    (hsucceed : Along (fun e op => op.Sequential e ∧ (op.run e).1 = .ok ()) e ops)
    (hdepth : bs.length + ops.countP isDeletion ≤ e.undo.depth) :
    ∃ bs', Retraces H prior bs' (runAll e ops) ∧
      bs'.length = bs.length + ops.countP isDeletion := by
  induction ops generalizing e bs with
  | nil => exact ⟨bs, h, rfl⟩
  | cons op ops ih =>
    obtain ⟨⟨hseq, hok⟩, hrest⟩ := hsucceed
    obtain ⟨hop, hops⟩ := List.forall_mem_cons.1 hops
    rw [List.countP_cons] at hdepth ⊢
    rcases hop with hop | hop
    · obtain ⟨batch, hback, hundo⟩ := retraces_deletion h hop hok
      rw [if_pos hop] at hdepth ⊢
      obtain ⟨bs', hback', hlen⟩ := ih hback hops hrest
        (by rw [hundo, List.length_cons]; omega)
      refine ⟨bs', hback', ?_⟩
      rw [hlen, List.length_cons]
      omega
    · have hno : op.isDeletion = false := by
        cases op <;> first | rfl | cases hop
      rw [if_neg (by simp [hno])] at hdepth ⊢
      obtain ⟨hback, -, hsame⟩ := retraces_bracket h hop hseq hok (Or.inl (by omega))
      exact ih hback hops hrest (by rw [hsame]; exact hdepth)

theorem effect_undelete {t : TransactionId} {report : RestoreReport} {e' : Engine}
    (h : (Engine.undelete t).perform e = (.ok report, e')) : (run e (.undelete t)).2 = e' := by
  rw [run, Action.effect, h]

/-- Restoring all batches, in as many transactions as one likes, leads all the way back. -/
theorem retraces_undeletes (h : Retraces H prior bs e) (hquiet : e.Quiet)
    (hops : ∀ op ∈ ops, op.isUndelete = true ∨ op.isBracket = true)
    (hfits : Along (fun e op => op.Fits e) e ops) (hcount : ops.countP isUndelete = bs.length) :
    Along BringsBack e ops ∧ Retraces H prior [] (runAll e ops) := by
  induction ops generalizing e bs with
  | nil =>
    cases List.eq_nil_of_length_eq_zero hcount.symm
    exact ⟨trivial, h⟩
  | cons op ops ih =>
    obtain ⟨hfit, hrest⟩ := hfits
    obtain ⟨hop, htail⟩ := List.forall_mem_cons.1 hops
    rw [List.countP_cons] at hcount
    rcases hop with hop | hop
    · rw [if_pos hop] at hcount
      cases op with
      | undelete t =>
        cases bs with
        | nil => cases hcount
        | cons batch bs =>
          obtain ⟨report, e', hrun, hfailed, hunnamed, hback, hquiet'⟩ := h.undelete hquiet hfit
          have heq := effect_undelete hrun
          rw [heq] at hrest
          obtain ⟨halong, hend⟩ := ih hback hquiet' htail hrest (Nat.succ.inj hcount)
          rw [Along, runAll, heq]
          refine ⟨⟨fun t' ht' => ?_, halong⟩, hend⟩
          cases ht'
          exact ⟨report, by rw [hrun], hfailed, hunnamed⟩
      | _ => cases hop
    · have hno : op.isUndelete = false := by
        cases op <;> first | rfl | cases hop
      rw [if_neg (by simp [hno])] at hcount
      have hseq : op.Sequential e := by
        cases op <;> first | exact hfit | trivial
      have hok : (op.run e).1 = .ok () := by
        cases op with
        | begin timeout => rfl
        | commit t =>
          obtain ⟨tx, htx, hopen⟩ := isOpen_iff.1 hfit
          rw [run, Action.effect, perform_commit htx hopen]
          rfl
        | _ => cases hop
      obtain ⟨hback, hquiet', -⟩ := retraces_bracket h hop hseq hok (Or.inr hquiet)
      obtain ⟨halong, hend⟩ := ih hback hquiet' htail hrest hcount
      refine ⟨⟨fun t' ht' => ?_, halong⟩, hend⟩
      cases ht'
      cases hno

end Op

/-- As many undeletes as there were deletions restore every record. -/
theorem Reached.undelete_delete {e : Engine} {deletions undeletes : List Op}
    (h : Reached (fun e op => op.Sequential e ∧ op.Faithful e) e)
    (hdeletions : ∀ op ∈ deletions, op.isDeletion = true ∨ op.isBracket = true)
    (hsucceed : Op.Along (fun e op => op.Sequential e ∧ (op.run e).1 = .ok ()) e deletions)
    (hdepth : deletions.countP Op.isDeletion ≤ e.undo.depth)
    (hcommitted : ∀ t, (Op.runAll e deletions).isOpen t = false)
    (hundeletes : ∀ op ∈ undeletes, op.isUndelete = true ∨ op.isBracket = true)
    (hfits : Op.Along (fun e op => op.Fits e) (Op.runAll e deletions) undeletes)
    (hcount : undeletes.countP Op.isUndelete = deletions.countP Op.isDeletion) :
    Op.Along Op.BringsBack (Op.runAll e deletions) undeletes ∧
      ∀ x, (Op.runAll (Op.runAll e deletions) undeletes).store.get? x = e.store.get? x := by
  obtain ⟨⟨H, hsession⟩, hcounter⟩ :=
    h.session_counter (fun _ _ hop => hop.1) (fun _ _ hop => hop.2.offers)
  obtain ⟨bs, hback, hlen⟩ :=
    Op.retraces_deletions ⟨Engine.awaits_nil hsession hcounter, fun _ => rfl⟩
    hdeletions hsucceed (by simpa using hdepth)
  obtain ⟨halong, hend⟩ := Op.retraces_undeletes hback
    (fun t tx htx hopen => absurd (Engine.isOpen_iff.2 ⟨tx, htx, hopen⟩) (by simp [hcommitted t]))
    hundeletes hfits (by simpa [hcount] using hlen.symm)
  exact ⟨halong, hend.back⟩

def committedRoot : List Op :=
  [.begin none, .createRoot ⟨1⟩ (.function ⟨0⟩ (.atom "A") (.atom "B")),
    .declare ⟨1⟩ (.after 0) (.var (.after 1) (.atom "A")), .commit ⟨1⟩]

/-- The removal of the declaration, and then of the root, in two transactions. -/
def emptied : List Op :=
  [.begin none, .removeStatements ⟨2⟩ (.after 0) [.after 2], .commit ⟨2⟩, .begin none,
    .removeRoot ⟨3⟩ (.after 0), .commit ⟨3⟩]

def refilled : List Op := [.begin none, .undelete ⟨4⟩, .undelete ⟨4⟩]

theorem reached_committedRoot : Reached (fun e op => op.Sequential e ∧ op.Faithful e)
    (Op.runAll (.inMemory {}) committedRoot) :=
  reached_of_succeed (by decide +kernel)

theorem committedRoot_restored :
    emptied.countP Op.isDeletion = 2 ∧ refilled.countP Op.isUndelete = 2 ∧
      Op.Along Op.BringsBack (Op.runAll (Op.runAll (.inMemory {}) committedRoot) emptied)
        refilled ∧
      ∀ x, (Op.runAll (Op.runAll (Op.runAll (.inMemory {}) committedRoot) emptied)
        refilled).store.get? x = (Op.runAll (.inMemory {}) committedRoot).store.get? x := by
  have hclosed : ∀ t, (Op.runAll (Op.runAll (.inMemory {}) committedRoot) emptied).isOpen t =
      false := Engine.allClosed_iff.2 (by decide +kernel)
  refine ⟨rfl, rfl, reached_committedRoot.undelete_delete (by decide) (by decide +kernel)
    (by decide +kernel) hclosed (by decide) ⟨hclosed, ?_, ?_, trivial⟩ rfl⟩ <;>
  · change Engine.isOpen _ _ = true
    decide +kernel

namespace Engine

open Store

variable {t : TransactionId} {H : Graph} {e e₁ : Engine} {context : StatementId}
  {ids removed : List StatementId}

theorem Awaits.clear (h : Awaits H [] e) (hids : ids ≠ [])
    (hrun : (removeStatements t context ids).perform e = (.ok removed, e₁)) :
    ∃ batch, Takes t H e e₁ batch ∧ (∀ x ∈ removed, e.store.contains x = true) ∧
      (Restorable e₁.store.graph.Live batch.reverse ↔
        e.store.InOrder (e.store.dependencySorted ids false)) := by
  have ht : e.isOpen t = true := by
    rw [← Bool.not_eq_false]
    intro hclosed
    rw [removeStatements, perform_closed hclosed] at hrun
    cases hrun
  obtain ⟨e₀, w, hs, hg, hstore, hw, rfl, rfl⟩ :=
    (drops_removeStatements (h.session.sound ht)).1 removed e₁ hrun
  refine ⟨w.batch, takes_of_removes h.session ht hs hg hstore (hw.removes hs)
    (hw.batch_ne_nil hs hids), fun x hx => ?_, ?_⟩
  · have hremovable : e₀.store.Removable (e₀.store.dependencySorted ids false).reverse :=
      hw.removable.congr fun _ => mem_reverse_dependencySorted
    obtain ⟨hcut, -, -⟩ := cut_removeTrees hs hremovable
    rw [Removal.removed, hw.work, recheck_fields.2] at hx
    obtain ⟨st, hst, rfl⟩ := List.mem_map.1 hx
    rw [← hstore]
    exact Table.contains_iff.2 ⟨st, hcut.gone st hst⟩
  · rw [Removal.record, store_onTransaction, ← hstore]
    exact hw.undoable_iff hs

end Engine

/-- A deletion can be undone exactly if no earlier tree needs a later one. -/
theorem Reached.undelete_batch {e e₁ : Engine} {t : TransactionId} {context : StatementId}
    {ids removed : List StatementId} (timeout : Option Nat)
    (h : Reached (fun e op => op.Sequential e ∧ op.Faithful e) e) (hids : ids ≠ [])
    (hrun : (Engine.removeStatements t context ids).perform e = (.ok removed, e₁)) :
    ∃ e₂, (Engine.commit t).perform e₁ = (.ok (), e₂) ∧
      ∃ report e₄, (Engine.undelete (e₂.begin timeout).1).perform (e₂.begin timeout).2 =
          (.ok report, e₄) ∧
        (report.failed = [] ↔ e.store.InOrder (e.store.dependencySorted ids false)) ∧
        (report.failed = [] → report.unnamed = [] ∧ (∀ x, e₄.store.get? x = e.store.get? x) ∧
          ∀ x ∈ removed, e₄.store.contains x = true) := by
  obtain ⟨⟨H, hsession⟩, hcounter⟩ :=
    h.session_counter (fun _ _ hop => hop.1) (fun _ _ hop => hop.2.offers)
  have hawaits := Engine.awaits_nil hsession hcounter
  obtain ⟨batch, htakes, hlive, horder⟩ := hawaits.clear hids hrun
  obtain ⟨-, tx, -, -, htx, hopen, -⟩ := htakes.deletions
  have htaken := hawaits.take htakes
  obtain ⟨hstore, -⟩ := Engine.commitWith_fields e₁ tx
  obtain ⟨hcommitted, -⟩ := htaken.commit htx hopen (Or.inl (Nat.one_le_iff_ne_zero.2
    htaken.session.deep))
  obtain ⟨hbegun, hquiet⟩ :=
    hcommitted.begin (htaken.session.isOpen_commitWith htx hopen) timeout
  have hsame : ((e₁.commitWith tx).begin timeout).2.store = e₁.store := hstore
  obtain ⟨report, e₄, hundelete, hfailed, hback, -⟩ := hbegun.undelete hquiet
    (Engine.isOpen_begin timeout) hsession.maintained hsession.named (hsame ▸ htakes.lacks)
  rw [hsame, horder] at hfailed
  refine ⟨_, Engine.perform_commit htx hopen, report, e₄, hundelete, hfailed, fun hnone => ?_⟩
  obtain ⟨hunnamed, hget⟩ := hback hnone
  refine ⟨hunnamed, hget, fun x hx => ?_⟩
  rw [Store.contains, Table.contains, ← Store.get?, hget]
  exact hlive x hx

/-- A context, and beside it a declaration that the context mentions from within. -/
def crossing : List Op :=
  [.begin none, .createRoot ⟨1⟩ (.function ⟨0⟩ (.atom "A") (.atom "B")),
    .openNested ⟨1⟩ (.after 0) (.atom "A"), .declare ⟨1⟩ (.after 0) (.var (.after 1) (.atom "A")),
    .declare ⟨1⟩ (.after 2) (.var (.after 3) (.atom "A"))]

theorem reached_crossing : Reached (fun e op => op.Sequential e ∧ op.Faithful e)
    (Op.runAll (.inMemory {}) crossing) :=
  reached_of_succeed (by decide +kernel)

theorem crossing_restored :
    (Op.runAll (.inMemory {}) crossing).store.InOrder
        ((Op.runAll (.inMemory {}) crossing).store.dependencySorted [.after 3, .after 2] false) ∧
      ∃ removed e₁, (Engine.removeStatements ⟨1⟩ (.after 0) [.after 3, .after 2]).perform
          (Op.runAll (.inMemory {}) crossing) = (.ok removed, e₁) ∧
        ∃ e₂, (Engine.commit ⟨1⟩).perform e₁ = (.ok (), e₂) ∧
          ∃ report e₄, (Engine.undelete (e₂.begin none).1).perform (e₂.begin none).2 =
              (.ok report, e₄) ∧ report.failed = [] ∧
            ∀ x ∈ removed, e₄.store.contains x = true := by
  have horder : (Op.runAll (.inMemory {}) crossing).store.InOrder
      ((Op.runAll (.inMemory {}) crossing).store.dependencySorted [.after 3, .after 2] false) := by
    decide
  obtain ⟨removed, e₁, hrun⟩ : ∃ removed e₁,
      (Engine.removeStatements ⟨1⟩ (.after 0) [.after 3, .after 2]).perform
        (Op.runAll (.inMemory {}) crossing) = (.ok removed, e₁) := ⟨_, _, rfl⟩
  obtain ⟨e₂, hcommit, report, e₄, hundelete, hfailed, hback⟩ :=
    reached_crossing.undelete_batch none (List.cons_ne_nil _ _) hrun
  exact ⟨horder, removed, e₁, hrun, e₂, hcommit, report, e₄, hundelete, hfailed.2 horder,
    (hback (hfailed.2 horder)).2.2⟩

/-- The context goes last and comes back first, when what it mentions is not there yet. -/
theorem crossing_lost :
    ((Engine.removeStatements ⟨1⟩ (.after 0) [.after 2, .after 3]).perform
        (Op.runAll (.inMemory {}) crossing)).1 = .ok [.after 3, .after 4, .after 2] ∧
      ∃ report, ((Engine.undelete ⟨2⟩).perform (Op.runAll (Op.runAll (.inMemory {}) crossing)
          [.removeStatements ⟨1⟩ (.after 0) [.after 2, .after 3], .commit ⟨1⟩, .begin none])).1 =
            .ok report ∧ report.failed.map Prod.fst = [.after 4] := by
  refine ⟨by decide +kernel, ?_⟩
  generalize hrun : ((Engine.undelete ⟨2⟩).perform (Op.runAll (Op.runAll (.inMemory {}) crossing)
    [.removeStatements ⟨1⟩ (.after 0) [.after 2, .after 3], .commit ⟨1⟩, .begin none])).1 = out
  have hfailed : out.toOption.map (·.failed.map Prod.fst) = some [.after 4] := by
    rw [← hrun]
    decide +kernel
  obtain ⟨report, hreport, hids⟩ := Option.map_eq_some_iff.1 hfailed
  cases out with
  | error f => cases hreport
  | ok r =>
    cases hreport
    exact ⟨report, rfl, hids⟩

end StatementGraph
