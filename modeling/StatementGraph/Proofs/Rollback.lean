import StatementGraph.Proofs.Journal

namespace StatementGraph

theorem Table.foldl_update {κ σ α : Type} [Ranked κ] [DecidableEq κ] (view : σ → κ → α)
    {update : σ → κ × α → σ} (t : Table κ α) {entries : List (κ × α)}
    (hentries : entries.Perm t.entries) {s : σ} {x : κ}
    (h : ∀ entry ∈ t.entries, ∀ s y,
      view (update s entry) y = if y = entry.1 then entry.2 else view s y) :
    view (entries.foldl update s) x = (t.get? x).getD (view s x) := by
  have hfold (l : List (κ × α)) (hl : ∀ entry ∈ l, entry ∈ t.entries)
      (hnodup : (l.map Prod.fst).Nodup) (s : σ) :
      (∀ a, (x, a) ∈ l → view (l.foldl update s) x = a) ∧
        (x ∉ l.map Prod.fst → view (l.foldl update s) x = view s x) := by
    induction l generalizing s with
    | nil => exact ⟨fun _ hx => (by cases hx), fun _ => rfl⟩
    | cons entry rest ih =>
      rw [List.map_cons, List.nodup_cons] at hnodup
      obtain ⟨hmem, hout⟩ := ih (fun e he => hl e (List.mem_cons_of_mem _ he)) hnodup.2
        (update s entry)
      have hone := h entry (hl entry List.mem_cons_self) s x
      refine ⟨fun a hx => ?_, fun hx => ?_⟩
      · rcases List.mem_cons.1 hx with rfl | hx
        · exact (hout hnodup.1).trans (hone.trans (if_pos rfl))
        · exact hmem a hx
      · rw [List.map_cons, List.mem_cons, not_or] at hx
        exact (hout hx.2).trans (hone.trans (if_neg hx.1))
  have hnodup : (entries.map Prod.fst).Nodup := (hentries.map Prod.fst).nodup_iff.2 t.keys_nodup
  obtain ⟨hmem, hout⟩ := hfold entries (fun _ he => hentries.mem_iff.1 he) hnodup s
  cases hx : t.get? x with
  | none =>
    refine hout fun hkey => ?_
    obtain ⟨a, ha⟩ := Table.mem_keys.1 ((hentries.map Prod.fst).mem_iff.1 hkey)
    rw [hx] at ha
    cases ha
  | some a => exact hmem a (hentries.mem_iff.2 (Table.mem_entries.2 hx))

namespace Store

variable {s : Store} {x y : StatementId}

theorem get?_restore {prior : Option Statement} (h : ∀ st, prior = some st → st.id = y) :
    (s.restore y prior).get? x = if x = y then prior else s.get? x := by
  cases prior with
  | none => exact get?_erase
  | some st =>
    rw [← h st rfl]
    exact get?_write

theorem restoreAll_fields (l : List (StatementId × Option Statement)) :
    (l.foldl (fun s entry => s.restore entry.1 entry.2) s).authorities = s.authorities ∧
      (l.foldl (fun s entry => s.restore entry.1 entry.2) s).allocator = s.allocator := by
  induction l generalizing s with
  | nil => exact ⟨rfl, rfl⟩
  | cons entry rest ih =>
    have hone : (s.restore entry.1 entry.2).authorities = s.authorities ∧
        (s.restore entry.1 entry.2).allocator = s.allocator := by
      cases entry.2 with
      | none =>
        rw [restore, erase]
        split <;> exact ⟨rfl, rfl⟩
      | some st => exact ⟨rfl, rfl⟩
    obtain ⟨ha, hc⟩ := ih (s := s.restore entry.1 entry.2)
    exact ⟨ha.trans hone.1, hc.trans hone.2⟩

theorem setAuthorities_fields (l : List (StatementId × Option Authority)) :
    (l.foldl (fun s entry => s.setAuthority entry.1 entry.2) s).statements = s.statements ∧
      (l.foldl (fun s entry => s.setAuthority entry.1 entry.2) s).index = s.index ∧
      (l.foldl (fun s entry => s.setAuthority entry.1 entry.2) s).allocator = s.allocator := by
  induction l generalizing s with
  | nil => exact ⟨rfl, rfl, rfl⟩
  | cons entry rest ih => exact ih

/-- Bringing a record back keeps the names of statements that have other names then. -/
theorem NamedOn.restore {P : StatementId → Prop} {prior : Option Statement} (h : s.NamedOn P)
    (hid : ∀ st, prior = some st → st.id = x)
    (hfree : ∀ key y, P y → y ≠ x → s.scopedName y = some key →
      prior.bind Statement.scopedName ≠ some key) :
    (s.restore x prior).NamedOn fun y => y = x ∨ P y := by
  cases prior with
  | none => exact h.erase
  | some st =>
    have hst := hid st rfl
    subst hst
    exact h.write hfree

/-- Bringing records back one after the other, to records that do not share names. -/
theorem namedOn_restoreAll {P : StatementId → Prop} {R : StatementId → Option Statement}
    (hid : ∀ x st, R x = some st → st.id = x)
    (hunique : ∀ x y key, (R x).bind Statement.scopedName = some key →
      (R y).bind Statement.scopedName = some key → x = y)
    (l : List (StatementId × Option Statement)) (hl : ∀ entry ∈ l, R entry.1 = entry.2)
    (h : s.NamedOn P) (hP : ∀ y, P y → s.get? y = R y) :
    (l.foldl (fun s entry => s.restore entry.1 entry.2) s).NamedOn
      fun y => y ∈ l.map Prod.fst ∨ P y := by
  induction l generalizing s P with
  | nil => exact h.imp fun y hy => hy.resolve_left List.not_mem_nil
  | cons entry rest ih =>
    have hentry := hl entry List.mem_cons_self
    have hprior (st : Statement) (hst : entry.2 = some st) : st.id = entry.1 :=
      hid entry.1 st (hentry.trans hst)
    have hone : (s.restore entry.1 entry.2).NamedOn fun y => y = entry.1 ∨ P y := by
      apply h.restore hprior
      intro key y hy hne hname hclash
      apply hne
      rw [scopedName, hP y hy] at hname
      exact hunique y entry.1 key hname (hentry ▸ hclash)
    refine (ih (fun e he => hl e (List.mem_cons_of_mem _ he)) hone fun y hy => ?_).imp
      fun y hy => ?_
    · rw [get?_restore hprior]
      split
      · rename_i he
        rw [he, hentry]
      · rename_i hne
        exact hP y (hy.resolve_left hne)
    · rw [List.map_cons, List.mem_cons] at hy
      tauto

end Store

def Records.DistinctNames (r : Records) : Prop := ∀ x y key,
  (r.statements x).bind Statement.scopedName = some key →
    (r.statements y).bind Statement.scopedName = some key → x = y

namespace Engine

open Store

/-- Bring back the records a transaction touched, in a given order. -/
def rollbackIn (e : Engine) (tx : Transaction) (statements : List (StatementId × Option Statement))
    (authorities : List (StatementId × Option Authority)) : Engine :=
  let store := statements.foldl (fun s entry => s.restore entry.1 entry.2) e.store
  let store := authorities.foldl (fun s entry => s.setAuthority entry.1 entry.2) store
  { e with store, undo := e.undo.pushAll tx.popped.reverse }

theorem rollback_eq (e : Engine) (tx : Transaction) :
    e.rollback tx = e.rollbackIn tx tx.statements.entries tx.authorities.entries := rfl

variable {e : Engine} {tx : Transaction} {H : Graph}
  {statements : List (StatementId × Option Statement)}
  {authorities : List (StatementId × Option Authority)}

/-- The records after a rollback are those from before the transaction. -/
theorem records_rollbackIn (hst : statements.Perm tx.statements.entries)
    (hau : authorities.Perm tx.authorities.entries)
    (hkeyed : ∀ x st, tx.statements.get? x = some (some st) → st.id = x) :
    (e.rollbackIn tx statements authorities).store.records = tx.before e.store := by
  rw [rollbackIn]
  dsimp only
  generalize hback : statements.foldl (fun s entry => s.restore entry.1 entry.2) e.store = back
  obtain ⟨hstatements, -, -⟩ := setAuthorities_fields (s := back) authorities
  -- the journal has the first prior record of each statement that the transaction touched
  have hget (x : StatementId) : back.get? x = (tx.statements.get? x).getD (e.store.get? x) := by
    rw [← hback]
    refine Table.foldl_update get? tx.statements hst fun entry hentry s y => get?_restore ?_
    intro st hprior
    apply hkeyed entry.1 st
    rw [← hprior]
    exact Table.mem_entries.1 (show (entry.1, entry.2) ∈ tx.statements.entries from hentry)
  have hauthority (x : StatementId) :
      (authorities.foldl (fun s entry => s.setAuthority entry.1 entry.2) back).authority? x =
        (tx.authorities.get? x).getD (e.store.authority? x) := by
    have hold : back.authority? x = e.store.authority? x := by
      rw [authority?, ← hback, (restoreAll_fields statements).1]
      rfl
    rw [← hold]
    exact Table.foldl_update authority? tx.authorities hau fun entry _ s y => Table.get?_set
  simp only [records, Transaction.before, Records.mk.injEq]
  refine ⟨funext fun x => ?_, funext hauthority⟩
  rw [get?, hstatements]
  exact hget x

theorem named_rollbackIn (hst : statements.Perm tx.statements.entries)
    (hau : authorities.Perm tx.authorities.entries)
    (hkeyed : ∀ x st, (tx.before e.store).statements x = some st → st.id = x)
    (hnames : (tx.before e.store).DistinctNames) (h : e.store.Named) :
    (e.rollbackIn tx statements authorities).store.Named := by
  have hentry (entry : StatementId × Option Statement) (he : entry ∈ statements) :
      tx.statements.get? entry.1 = some entry.2 :=
    Table.mem_entries.1 (show (entry.1, entry.2) ∈ tx.statements.entries from hst.mem_iff.1 he)
  have hback : (statements.foldl (fun s entry => s.restore entry.1 entry.2)
      e.store).NamedOn fun _ => True := by
    have huntouched : e.store.NamedOn fun y => tx.statements.get? y = none :=
      h.on.imp fun _ _ => trivial
    refine (namedOn_restoreAll hkeyed hnames statements (fun entry he => ?_) huntouched
      fun y hy => ?_).imp fun y _ => ?_
    · simp [Transaction.before, hentry entry he]
    · simp [Transaction.before, hy]
    · cases hy : tx.statements.get? y with
      | none => exact Or.inr rfl
      | some prior =>
        exact Or.inl ((hst.map Prod.fst).mem_iff.2 (Table.mem_keys.2 ⟨prior, hy⟩))
  have hrecords := records_rollbackIn (e := e) hst hau fun x st hx =>
    hkeyed x st (by simp [Transaction.before, hx])
  obtain ⟨hstatements, hindex, -⟩ := setAuthorities_fields
    (s := statements.foldl (fun s entry => s.restore entry.1 entry.2) e.store) authorities
  refine ⟨?_, fun x y key hx hy => ?_⟩
  · rw [rollbackIn]
    refine ⟨fun x st hx => ?_, fun key x hmem => ?_, fun key x hP hx => ?_⟩
    · rw [get?, hstatements] at hx
      exact hback.keyed x st hx
    · rw [scopedName, get?, hstatements]
      rw [hindex] at hmem
      exact hback.filed key x hmem
    · rw [scopedName, get?, hstatements] at hx
      rw [hindex]
      exact hback.found key x hP hx
  · have hget : (e.rollbackIn tx statements authorities).store.get? =
        (tx.before e.store).statements := congrArg Records.statements hrecords
    rw [scopedName, hget] at hx hy
    exact hnames x y key hx hy

theorem allocator_rollbackIn :
    (e.rollbackIn tx statements authorities).store.allocator = e.store.allocator :=
  (setAuthorities_fields authorities).2.2.trans (restoreAll_fields statements).2

theorem rollbackIn_keeps {P : Store → Prop} (hwrite : ∀ s st, P s → P (s.write st))
    (herase : ∀ s x, P s → P (s.erase x))
    (hsame : ∀ s s' : Store, s'.statements = s.statements → s'.index = s.index → P s → P s')
    (h : P e.store) : P (e.rollbackIn tx statements authorities).store := by
  have hrestored (l : List (StatementId × Option Statement)) (s : Store) (hs : P s) :
      P (l.foldl (fun s entry => s.restore entry.1 entry.2) s) := by
    induction l generalizing s with
    | nil => exact hs
    | cons entry rest ih =>
      obtain ⟨x, prior⟩ := entry
      apply ih
      cases prior with
      | none => exact herase s x hs
      | some st => exact hwrite s st hs
  obtain ⟨hstatements, hindex, -⟩ := setAuthorities_fields
    (s := statements.foldl (fun s entry => s.restore entry.1 entry.2) e.store) authorities
  exact hsame _ _ hstatements hindex (hrestored statements e.store h)

theorem records_rollback (hkeyed : ∀ x st, (tx.before e.store).statements x = some st → st.id = x)
    (hi : e.store.Indexed) : (e.rollback tx).store.records = tx.before e.store ∧
      (e.rollback tx).store.Indexed ∧
      (e.rollback tx).store.allocator = e.store.allocator := by
  rw [rollback_eq]
  refine ⟨records_rollbackIn (.refl _) (.refl _) fun x st hx => ?_, ?_, allocator_rollbackIn⟩
  · exact hkeyed x st (by simp [Transaction.before, hx])
  · exact rollbackIn_keeps (fun _ _ h => h.write) (fun _ _ h => h.erase)
      (fun _ _ hs hi h => h.of_eq hs hi) hi

theorem named_rollback (hkeyed : ∀ x st, (tx.before e.store).statements x = some st → st.id = x)
    (hnames : (tx.before e.store).DistinctNames) (h : e.store.Named) :
    (e.rollback tx).store.Named :=
  named_rollbackIn (.refl _) (.refl _) hkeyed hnames h

end Engine

end StatementGraph
