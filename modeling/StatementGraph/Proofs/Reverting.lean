import StatementGraph.Proofs.Kinship
import StatementGraph.Proofs.Overlapping

namespace StatementGraph

section Reverting

variable {α : Type} {s t : TransactionId} {ts : List TransactionId} {x : StatementId}
  {prior prior' : TransactionId → StatementId → Option (Option α)}
  {now now' back back' : StatementId → Option α} {C : StatementId → Prop}

/-- What there is without some transactions: what they kept, and what none of them has touched. -/
structure Reverts (ts : List TransactionId)
    (prior : TransactionId → StatementId → Option (Option α))
    (now back : StatementId → Option α) : Prop where
  touched : ∀ t ∈ ts, ∀ x kept, prior t x = some kept → back x = kept
  untouched : ∀ x, (∀ t ∈ ts, prior t x = none) → back x = now x

theorem Reverts.eq_now (h : Reverts [] prior now back) : back = now :=
  funext fun x => h.untouched x fun _ ht => absurd ht List.not_mem_nil

theorem Reverts.eq_kept (h : Reverts [t] prior now back) (x : StatementId) :
    back x = (prior t x).getD (now x) := by
  cases hkept : prior t x with
  | none =>
    apply h.untouched x
    intro t' ht'
    rw [List.mem_singleton.1 ht']
    exact hkept
  | some kept => exact h.touched t List.mem_cons_self x kept hkept

/-- One transaction changes what there is, and keeps what was there at its first touch. -/
structure Journals (s : TransactionId)
    (prior : TransactionId → StatementId → Option (Option α)) (now : StatementId → Option α)
    (prior' : TransactionId → StatementId → Option (Option α)) (now' : StatementId → Option α) :
    Prop where
  others : ∀ t, t ≠ s → prior' t = prior t
  before : ∀ x, (prior' s x).getD (now' x) = (prior s x).getD (now x)
  kept : ∀ x p, prior s x = some p → prior' s x = some p

theorem Journals.untouched (h : Journals s prior now prior' now') (hx : prior' s x = none) :
    prior s x = none ∧ now' x = now x := by
  have hnone : prior s x = none := by
    cases hp : prior s x with
    | none => rfl
    | some p => cases hx.symm.trans (h.kept x p hp)
  have hbefore := h.before x
  rw [hx, hnone] at hbefore
  exact ⟨hnone, hbefore⟩

theorem Reverts.own (h : Reverts ts prior now back) (hj : Journals s prior now prior' now')
    (hs : s ∈ ts) (hapart : ∀ x, prior' s x ≠ none → ∀ t ∈ ts, t ≠ s → prior t x = none) :
    Reverts ts prior' now' back := by
  refine ⟨fun t ht x kept hx => ?_, fun x hx => ?_⟩
  · by_cases hts : t = s
    · subst hts
      cases hold : prior t x with
      | some p =>
        cases (hj.kept x p hold).symm.trans hx
        exact h.touched t ht x kept hold
      | none =>
        -- the first touch: until now, nothing that is taken back has changed it
        have hbefore := hj.before x
        rw [hx, hold] at hbefore
        have hnow : back x = now x := by
          apply h.untouched x
          intro t' ht'
          by_cases htt : t' = t
          · exact htt ▸ hold
          · exact hapart x (by rw [hx]; exact Option.some_ne_none kept) t' ht' htt
        exact hnow.trans hbefore.symm
    · rw [hj.others t hts] at hx
      exact h.touched t ht x kept hx
  · obtain ⟨hold, hnow⟩ := hj.untouched (hx s hs)
    rw [hnow]
    apply h.untouched x
    intro t ht
    by_cases hts : t = s
    · exact hts ▸ hold
    · rw [← hj.others t hts]
      exact hx t ht

/-- What another transaction does is still there, outside a set that it leaves alone. -/
theorem Reverts.others (h : Reverts ts prior now back) (hj : Journals s prior now prior' now')
    (hs : s ∉ ts) (htouched : ∀ t ∈ ts, ∀ x, prior t x ≠ none → C x)
    (hsame : ∀ x, C x → now' x = now x) (hin : ∀ x, C x → back' x = back x)
    (hout : ∀ x, ¬C x → back' x = now' x) : Reverts ts prior' now' back' := by
  have hprior (t : TransactionId) (ht : t ∈ ts) : prior' t = prior t :=
    hj.others t fun hts => hs (hts ▸ ht)
  refine ⟨fun t ht x kept hx => ?_, fun x hx => ?_⟩
  · rw [hprior t ht] at hx
    rw [hin x (htouched t ht x (by rw [hx]; exact Option.some_ne_none kept))]
    exact h.touched t ht x kept hx
  · by_cases hC : C x
    · rw [hin x hC, hsame x hC]
      apply h.untouched x
      intro t ht
      rw [← hprior t ht]
      exact hx t ht
    · exact hout x hC

/-- Once a transaction has been taken back, the other ones are left to take back. -/
theorem Reverts.tail (h : Reverts (s :: ts) prior now back)
    (hprior : ∀ t ∈ ts, prior' t = prior t)
    (hnow : ∀ x, now' x = (prior s x).getD (now x)) : Reverts ts prior' now' back := by
  refine ⟨fun t ht x kept hx => ?_, fun x hx => ?_⟩
  · rw [hprior t ht] at hx
    exact h.touched t (List.mem_cons_of_mem _ ht) x kept hx
  · rw [hnow x]
    cases hp : prior s x with
    | some p => exact h.touched s List.mem_cons_self x p hp
    | none =>
      apply h.untouched x
      rintro t (_ | ⟨_, ht⟩)
      · exact hp
      · rw [← hprior t ht]
        exact hx t ht

theorem Reverts.congr (h : Reverts ts prior now back) (hprior : ∀ t ∈ ts, prior' t = prior t) :
    Reverts ts prior' now back := by
  refine ⟨fun t ht x kept hx => h.touched t ht x kept (hprior t ht ▸ hx),
    fun x hx => h.untouched x fun t ht => ?_⟩
  rw [← hprior t ht]
  exact hx t ht

end Reverting

theorem perm_flatMap_push {α β : Type} {f f' : α → List β} {l : List α} {a : α} {b : β}
    (ha : a ∈ l) (hnd : l.Nodup) (hothers : ∀ c ∈ l, c ≠ a → f' c = f c)
    (hown : f' a = f a ++ [b]) : (l.flatMap f').Perm (l.flatMap f ++ [b]) := by
  induction l with
  | nil => cases ha
  | cons c rest ih =>
    obtain ⟨hc, hrest⟩ := List.nodup_cons.1 hnd
    rw [List.flatMap_cons, List.flatMap_cons, List.append_assoc]
    by_cases hca : c = a
    · subst hca
      have hsame : rest.flatMap f' = rest.flatMap f :=
        List.flatMap_congr fun d hd =>
          hothers d (List.mem_cons_of_mem _ hd) fun hdc => hc (hdc ▸ hd)
      rw [hsame, hown, List.append_assoc]
      exact (List.perm_append_singleton b _).symm.append_left _
    · rw [hothers c List.mem_cons_self hca]
      apply List.Perm.append_left
      apply ih ((List.mem_cons.1 ha).resolve_left fun h => hca h.symm) hrest
      exact fun d hd => hothers d (List.mem_cons_of_mem _ hd)

namespace Engine

open Store

variable {s t : TransactionId} {ts us : List TransactionId} {e e' : Engine} {H H' G G' : Graph}
  {D : Discipline} {op : Op} {r r' : Records} {x : StatementId}

def readIn {β : Type} (e : Engine) (t : TransactionId) (blank : β) (f : Transaction → β) : β :=
  ((e.transactions.get? t).map f).getD blank

/-- What a transaction will put back in place of a record it has touched. -/
def prior? (e : Engine) (t : TransactionId) (x : StatementId) : Option (Option Statement) :=
  e.readIn t none fun tx => tx.statements.get? x

/-- What a transaction will put back in place of an authority it has touched. -/
def priorAuthority? (e : Engine) (t : TransactionId) (x : StatementId) :
    Option (Option Authority) :=
  e.readIn t none fun tx => tx.authorities.get? x

/-- The batches that a transaction has taken off the undo log. -/
def poppedIn (e : Engine) (t : TransactionId) : List DeletionBatch :=
  e.readIn t [] Transaction.popped

/-- The batches that a transaction will put on the undo log. -/
def deletionsIn (e : Engine) (t : TransactionId) : List DeletionBatch :=
  e.readIn t [] Transaction.deletions

section Reading

variable {β : Type} {blank : β} {f : Transaction → β} {tx : Transaction}

theorem readIn_eq (h : e.transactions.get? t = some tx) : e.readIn t blank f = f tx := by
  rw [readIn, h]
  rfl

theorem readIn_unknown (h : e.transactions.get? t = none) : e.readIn t blank f = blank := by
  rw [readIn, h]
  rfl

theorem readIn_congr (h : e'.transactions.get? t = e.transactions.get? t) :
    e'.readIn t blank f = e.readIn t blank f := by
  rw [readIn, h, readIn]

theorem flatMap_readIn {f : Transaction → List β}
    (hothers : ∀ t, t ≠ s → e'.transactions.get? t = e.transactions.get? t)
    (h : s ∉ ts ∨ e'.readIn s [] f = e.readIn s [] f) :
    ts.flatMap (fun t => e'.readIn t [] f) = ts.flatMap fun t => e.readIn t [] f := by
  apply List.flatMap_congr
  intro t ht
  by_cases hts : t = s
  · subst hts
    exact h.resolve_left (not_not.2 ht)
  · exact readIn_congr (hothers t hts)

end Reading

/-- The records without some transactions. -/
structure Without (e : Engine) (ts : List TransactionId) (r : Records) : Prop where
  statements : Reverts ts e.prior? e.store.get? r.statements
  authorities : Reverts ts e.priorAuthority? e.store.authority? r.authorities

theorem Without.eq_records (h : e.Without [] r) : r = e.store.records := by
  obtain ⟨statements, authorities⟩ := r
  rw [Store.records, ← h.statements.eq_now, ← h.authorities.eq_now]

/-- What is done in a transaction, as far as journals and other transactions are concerned. -/
structure Acts (s : TransactionId) (e e' : Engine) : Prop where
  others : ∀ t, t ≠ s → e'.transactions.get? t = e.transactions.get? t
  statements : Journals s e.prior? e.store.get? e'.prior? e'.store.get?
  authorities : Journals s e.priorAuthority? e.store.authority? e'.priorAuthority?
    e'.store.authority?

theorem acts_run (ho : e.Orderly) (hclient : op.client? = some s) (hopen : e.isOpen s = true) :
    Acts s e (op.run e).2 := by
  obtain ⟨tx, htx, -⟩ := isOpen_iff.1 hopen
  obtain ⟨tx', htx', -, hbefore, hstatements, hauthorities⟩ := own_run ho hclient htx
  have hothers (t : TransactionId) (ht : t ≠ s) := others_client (e := e) ho hclient ht
  refine ⟨hothers, ⟨fun t ht => ?_, fun x => ?_, fun x p hx => ?_⟩, fun t ht => ?_, fun x => ?_,
    fun x p hx => ?_⟩
  · exact funext fun x => readIn_congr (hothers t ht)
  · rw [prior?, prior?, readIn_eq htx, readIn_eq htx']
    exact congrFun (congrArg Records.statements hbefore) x
  · rw [prior?, readIn_eq htx] at hx
    rw [prior?, readIn_eq htx']
    exact hstatements x p hx
  · exact funext fun x => readIn_congr (hothers t ht)
  · rw [priorAuthority?, priorAuthority?, readIn_eq htx, readIn_eq htx']
    exact congrFun (congrArg Records.authorities hbefore) x
  · rw [priorAuthority?, readIn_eq htx] at hx
    rw [priorAuthority?, readIn_eq htx']
    exact hauthorities x p hx

/-- What becomes of batches while something is done in a transaction. -/
inductive Batches (s : TransactionId) (H : Graph) (e e' : Engine) : Prop where
  | kept (hundo : e'.undo.batches = e.undo.batches) (hpopped : e'.poppedIn s = e.poppedIn s)
      (hdeletions : e'.deletionsIn s = e.deletionsIn s)
      (hnew : ∀ x c, e'.store.graph x = some c → e.store.graph x = some c ∨ H x = none)
  | removed {batch : DeletionBatch} (hundo : e'.undo.batches = e.undo.batches)
      (hpopped : e'.poppedIn s = e.poppedIn s)
      (hdeletions : e'.deletionsIn s = e.deletionsIn s ++ [batch])
      (hleft : e'.store.graph.Sub e.store.graph) (hburied : H.Buries e'.store.graph [batch])
      (hdug : ∀ x ∈ batch.flatMap Deleted.ids, ∃ c, e.store.graph x = some c)
  | restored {batch : DeletionBatch} (hundo : e.undo.batches = batch :: e'.undo.batches)
      (hpopped : e'.poppedIn s = e.poppedIn s ++ [batch])
      (hdeletions : e'.deletionsIn s = e.deletionsIn s)
      (hback : ∀ x c, e'.store.graph x = some c →
        e.store.graph x = some c ∨ x ∈ batch.flatMap Deleted.ids)

def batchesAfter (e : Engine) (ts us : List TransactionId) : List DeletionBatch :=
  e.undo.batches ++ ts.flatMap e.poppedIn ++ us.flatMap e.deletionsIn

theorem Acts.flatMap_poppedIn (ha : Acts s e e') (h : s ∉ ts ∨ e'.poppedIn s = e.poppedIn s) :
    ts.flatMap e'.poppedIn = ts.flatMap e.poppedIn :=
  flatMap_readIn ha.others h

theorem Acts.flatMap_deletionsIn (ha : Acts s e e')
    (h : s ∉ us ∨ e'.deletionsIn s = e.deletionsIn s) :
    us.flatMap e'.deletionsIn = us.flatMap e.deletionsIn :=
  flatMap_readIn ha.others h

/-- Batches stay buried in what there is without the transaction. -/
theorem Batches.own (hb : Batches s H e e') (ha : Acts s e e') (hs : s ∈ ts) (hts : ts.Nodup)
    (hus : s ∉ us) (h : H.Buries G (e.batchesAfter ts us)) :
    H.Buries G (e'.batchesAfter ts us) := by
  have hdel : us.flatMap e'.deletionsIn = us.flatMap e.deletionsIn :=
    ha.flatMap_deletionsIn (Or.inl hus)
  cases hb with
  | kept hundo hpopped =>
    rw [batchesAfter, hundo, ha.flatMap_poppedIn (Or.inr hpopped), hdel]
    exact h
  | removed hundo hpopped =>
    rw [batchesAfter, hundo, ha.flatMap_poppedIn (Or.inr hpopped), hdel]
    exact h
  | @restored batch hundo hpopped =>
    -- the batch moves from the undo log to the batches that an abort gives back
    refine h.fewer (List.Perm.subperm ?_)
    rw [batchesAfter, batchesAfter, hundo, hdel]
    apply List.Perm.append_right
    have hpush := perm_flatMap_push hs hts (fun t _ ht => readIn_congr (ha.others t ht)) hpopped
    refine (hpush.append_left _).trans ?_
    rw [← List.append_assoc]
    exact List.perm_append_singleton batch _

/-- Batches stay buried in what there is without other transactions. -/
theorem Batches.others (hb : Batches s H e e') (ha : Acts s e e') (hH : H.Lawful D) (hs : s ∉ ts)
    (hus : us.Nodup) (hsame : ∀ x, e'.store.graph x = e.store.graph x → G' x = G x)
    (hchanged : ∀ x, e'.store.graph x ≠ e.store.graph x →
      G x = e.store.graph x ∧ G' x = e'.store.graph x)
    (h : H.Buries G (e.batchesAfter ts us)) : H.Buries G' (e'.batchesAfter ts us) := by
  have hpop : ts.flatMap e'.poppedIn = ts.flatMap e.poppedIn := ha.flatMap_poppedIn (Or.inl hs)
  -- what becomes live, becomes live in the store
  have hlive (x : StatementId) (c : Content) (hx : G' x = some c) :
      G x = some c ∨ e'.store.graph x = some c ∧ e.store.graph x ≠ some c := by
    by_cases heq : e'.store.graph x = e.store.graph x
    · exact Or.inl ((hsame x heq).symm.trans hx)
    · obtain ⟨hGx, hGx'⟩ := hchanged x heq
      rw [hGx'] at hx
      exact Or.inr ⟨hx, fun hc => heq (hx.trans hc.symm)⟩
  cases hb with
  | kept hundo _ hdeletions hnew =>
    rw [batchesAfter, hundo, hpop, ha.flatMap_deletionsIn (Or.inr hdeletions)]
    apply h.live hH
    intro x c hx
    rcases hlive x c hx with hc | ⟨hc, hnot⟩
    · exact Or.inl hc
    · exact Or.inr ((hnew x c hc).resolve_left hnot)
  | @removed batch hundo _ hdeletions hleft hburied hdug =>
    have hfewer (x : StatementId) (c : Content) (hx : G' x = some c) : G x = some c := by
      rcases hlive x c hx with hc | ⟨hc, hnot⟩
      · exact hc
      · exact absurd (hleft x c hc) hnot
    -- what has gone into the batch has gone from the store
    have hgone (x : StatementId) (hx : x ∈ batch.flatMap Deleted.ids) :
        (∃ c, G x = some c) ∧ G' x = none := by
      obtain ⟨c, hc⟩ := hdug x hx
      have hnone : e'.store.graph x = none :=
        hburied.dead x (by rw [List.flatten_singleton]; exact hx)
      obtain ⟨hGx, hGx'⟩ := hchanged x (by rw [hnone, hc]; exact (Option.some_ne_none c).symm)
      exact ⟨⟨c, hGx.trans hc⟩, hGx'.trans hnone⟩
    have hbatch : H.Buries G' [batch] := by
      refine { hburied with dead := fun x hx => ?_ }
      rw [List.flatten_singleton] at hx
      exact (hgone x hx).2
    by_cases hin : s ∈ us
    · have hadd := h.add hbatch hfewer fun x hx => (hgone x hx).1
      refine hadd.fewer (List.Perm.subperm ?_)
      rw [batchesAfter, batchesAfter, hundo, hpop, List.append_assoc _ _ [batch]]
      exact (perm_flatMap_push hin hus (fun t _ ht => readIn_congr (ha.others t ht))
        hdeletions).append_left _
    · rw [batchesAfter, hundo, hpop, ha.flatMap_deletionsIn (Or.inl hin)]
      apply h.live hH
      intro x c hx
      exact Or.inl (hfewer x c hx)
  | @restored batch hundo _ hdeletions hback =>
    rw [batchesAfter, hundo] at h
    rw [batchesAfter, hpop, ha.flatMap_deletionsIn (Or.inr hdeletions)]
    apply h.restore
    intro x c hx
    rcases hlive x c hx with hc | ⟨hc, hnot⟩
    · exact Or.inl hc
    · exact Or.inr ((hback x c hc).resolve_left hnot)

end Engine

end StatementGraph
